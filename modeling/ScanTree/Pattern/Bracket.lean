import ScanTree.Pattern.Escape

/-!
Sets in brackets: characters, ranges, escapes, named ASCII classes, sets inside sets and operators
on sets.

A `]` that comes first and the hyphens that come first stand for themselves, as does a hyphen
before the closing bracket. All operators bind alike and from the left.
-/

namespace ScanTree.Pattern

/-- A set, and how deep the brackets and operators of its text are nested. -/
structure Nested where
  set : CharSet
  depth : Nat
  deriving DecidableEq, Repr

inductive SetOperator
  | inter
  | diff
  | symmDiff
  deriving DecidableEq, Repr

def SetOperator.apply (op : SetOperator) (s t : CharSet) : CharSet :=
  match op with
  | inter => s.inter t
  | diff => s.diff t
  | symmDiff => (s.diff t).union (t.diff s)

/-- A set that is not yet closed. -/
structure Bracket where
  negated : Bool
  /-- What stands on the left of the last operator. -/
  left : Option (Nested × SetOperator) := none
  members : List Nested := []
  deriving Repr

namespace Bracket

def add (b : Bracket) (s : Nested) : Bracket := { b with members := s :: b.members }

def addChar (b : Bracket) (c : Char) : Bracket := b.add ⟨.char c, 0⟩

/-- The union of the members since the last operator. -/
def right (b : Bracket) : Nested :=
  let deepest := (b.members.map Nested.depth).foldr max 0
  ⟨b.members.foldr (fun s => s.set.union) .nothing,
    if b.members.length < 2 then deepest else deepest + 1⟩

def value (flags : Flags) (b : Bracket) : Nested :=
  match b.left with
  | none => b.right
  | some (l, op) =>
    ⟨op.apply (flags.charSet l.set) (flags.charSet b.right.set), max l.depth b.right.depth + 1⟩

def operator (flags : Flags) (b : Bracket) (op : SetOperator) : Bracket :=
  { b with left := some (b.value flags, op), members := [] }

def close? (flags : Flags) (b : Bracket) : Option Nested :=
  let v := b.value flags
  (flags.side? b.negated (flags.charSet v.set)).map (⟨·, v.depth + 1⟩)

/-- Reads what follows an opening bracket up to the first member, the characters that stand for
themselves only here included. -/
def opening (flags : Flags) (cs : List Char) : Bracket × List Char :=
  let (negated, cs) :=
    match flags.skip cs with
    | '^' :: cs => (true, cs)
    | cs => (false, cs)
  match Escape.gatherWhile flags (· = '-') cs.length cs with
  | ([], ']' :: rest) => (addChar ⟨negated, none, []⟩ ']', rest)
  | (hyphens, rest) => (hyphens.foldl addChar ⟨negated, none, []⟩, rest)

/-- A character or an escape. -/
def item (props : Properties) (flags : Flags) : List Char → Option (Escape × List Char)
  | [] => none
  | '\\' :: cs => Escape.read props flags cs
  | c :: cs => some (.char c, cs)

def allows (flags : Flags) (c : Char) : Bool := flags.unicode || Text.isAscii c

/-- The set of an item that is not the end of a range. -/
def itemSet? (flags : Flags) : Escape → Option CharSet
  | .char c => if allows flags c then some (.char c) else none
  | .set s => some s
  | .look _ => none

/-- A range needs a single character at either end, in order. -/
def range? (flags : Flags) : Escape → Escape → Option CharSet
  | .char first, .char last =>
    if first ≤ last ∧ allows flags last then some (.range first last) else none
  | _, _ => none

/-- The character by which a hyphen is known to stand inside a range. It is the next one apart
from white space; of a comment only the sign before it is passed over. -/
def ahead? (flags : Flags) (cs : List Char) : Option Char :=
  if flags.verbose then
    match cs.dropWhile Text.isBlank with
    | '#' :: rest => (rest.dropWhile Text.isBlank).head?.or cs.head?
    | rest => rest.head?.or cs.head?
  else cs.head?

/-- Reads an item or a range. -/
def member (props : Properties) (flags : Flags) (cs : List Char) :
    Option (CharSet × List Char) := do
  let (first, rest) ← item props flags cs
  match flags.skip rest with
  | '-' :: more =>
    if ahead? flags more = some ']' ∨ ahead? flags more = some '-' then
      (itemSet? flags first).map (·, '-' :: more)
    else
      let (last, rest) ← item props flags (flags.skip more)
      (range? flags first last).map (·, rest)
  | rest => (itemSet? flags first).map (·, rest)

/-- Reads `:name:]`, or `:^name:]` for the complement. -/
def named? (cs : List Char) : Option (Bool × CharSet × List Char) :=
  match cs with
  | ':' :: cs =>
    let (negated, cs) :=
      match cs with
      | '^' :: cs => (true, cs)
      | _ => (false, cs)
    match cs.span (· ≠ ':') with
    | (name, ':' :: ']' :: rest) => (CharSet.named? (String.ofList name)).map (negated, ·, rest)
    | _ => none
  | _ => none

/-- Reads members and operators up to the bracket that closes the outermost set, in at most `n`
steps. -/
def run (props : Properties) (flags : Flags) :
    Nat → Bracket → (outer : List Bracket) → List Char → Option (Nested × List Char)
  | 0, _, _, _ => none
  | n + 1, b, outer, cs =>
    match flags.skip cs with
    | ']' :: rest => do
      let s ← b.close? flags
      match outer with
      | [] => some (s, rest)
      | o :: outer => run props flags n (o.add s) outer rest
    | '[' :: rest =>
      match named? rest with
      | some (negated, s, rest) => do
        let s ← flags.side? negated (flags.charSet s)
        run props flags n (b.add ⟨s, 0⟩) outer rest
      | none =>
        let (inner, rest) := opening flags rest
        run props flags n inner (b :: outer) rest
    | '&' :: '&' :: rest => run props flags n (b.operator flags .inter) outer rest
    | '-' :: '-' :: rest => run props flags n (b.operator flags .diff) outer rest
    | '~' :: '~' :: rest => run props flags n (b.operator flags .symmDiff) outer rest
    | cs => do
      let (s, rest) ← member props flags cs
      run props flags n (b.add ⟨s, 0⟩) outer rest

/-- Reads what follows the opening bracket of a set. -/
def read (props : Properties) (flags : Flags) (cs : List Char) : Option (Nested × List Char) :=
  let (b, rest) := opening flags cs
  run props flags (rest.length + 1) b [] rest

end Bracket

end ScanTree.Pattern
