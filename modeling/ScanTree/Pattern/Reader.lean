import ScanTree.Pattern.Bracket
import ScanTree.Pattern.Normal
import ScanTree.Text.Name

/-!
Reading the text of a pattern.

The reader goes through the text from left to right, one item at a time. It keeps the level it is
in, which is the inside of the innermost open group, and the levels around that one. Groups are
numbered by their opening brackets. A text whose items are nested too deep is refused.
-/

namespace ScanTree.Pattern

/-- A part of the text: its pattern, and how deep its items are nested. -/
structure Part where
  pattern : Pattern
  depth : Nat := 0
  /-- Whether the part can be repeated. A setting of flags cannot. -/
  repeatable : Bool := true
  deriving Repr

namespace Part

/-- The depth of several parts together. -/
def depthOf (parts : List Part) : Nat :=
  let deepest := (parts.map depth).foldr max 0
  if parts.length < 2 then deepest else deepest + 1

/-- Parts one after the other. -/
def row (parts : List Part) : Part :=
  { pattern := concat (parts.map pattern), depth := depthOf parts }

/-- Parts with bars between them. -/
def fork (parts : List Part) : Part :=
  { pattern := choice (parts.map pattern), depth := depthOf parts }

end Part

/-- The alternatives of one group, as far as they are read. -/
structure Level where
  /-- The alternatives that are complete, last one first. -/
  earlier : List Part := []
  /-- The items of the current alternative, last one first. -/
  items : List Part := []
  deriving Repr

namespace Level

def current (l : Level) : Part := .row l.items.reverse

def whole (l : Level) : Part := .fork (l.current :: l.earlier).reverse

def push (l : Level) (p : Part) : Level := { l with items := p :: l.items }

def bar (l : Level) : Level := { earlier := l.current :: l.earlier }

def repeat? (l : Level) (min : Nat) (max : Option Nat) (greedy : Bool) : Option Level :=
  match l.items with
  | [] => none
  | p :: items =>
    if p.repeatable then
      let p := { p with pattern := p.pattern.repeated min max greedy, depth := p.depth + 1 }
      some { l with items := p :: items }
    else none

end Level

/-- A level that waits for the group inside it to close. -/
structure Enclosing where
  level : Level
  flags : Flags
  /-- The number of the group inside, if it has one. -/
  index : Option Nat
  deriving Repr

structure Reader where
  level : Level := {}
  outer : List Enclosing := []
  flags : Flags := {}
  groups : Nat := 0
  names : List (List Char) := []
  deriving Repr

namespace Reader

def push (r : Reader) (p : Part) : Reader := { r with level := r.level.push p }

def pushItem (r : Reader) (p : Pattern) : Reader := r.push { pattern := p }

/-- Sets the flags for the rest of the level. -/
def setFlags (r : Reader) (flags : Flags) : Reader :=
  { r.push { pattern := empty, repeatable := false } with flags }

/-- Opens a group, with the flags that hold inside it. -/
def descend (r : Reader) (flags : Flags) (index : Option Nat) : Reader :=
  { r with level := {}, flags, outer := ⟨r.level, r.flags, index⟩ :: r.outer }

def capture (r : Reader) : Reader :=
  let r := { r with groups := r.groups + 1 }
  r.descend r.flags (some r.groups)

/-- Closes the innermost group and restores the flags from before it. -/
def close? (r : Reader) : Option Reader :=
  match r.outer with
  | [] => none
  | e :: outer =>
    let whole := r.level.whole
    let inside :=
      match e.index with
      | some i => group i whole.pattern
      | none => whole.pattern
    let r := { r with level := e.level, flags := e.flags, outer }
    some (r.push { pattern := inside, depth := whole.depth + 1 })

/-- Opens a group with a name, which is read up to the `>`. No two groups share a name. -/
def named (r : Reader) (cs : List Char) : Option (Reader × List Char) :=
  match cs.span (· ≠ '>') with
  | (name, _ :: rest) =>
    if name.head?.any Text.isNameStart && name.all Text.isNameRest && !r.names.contains name then
      some ({ r.capture with names := name :: r.names }, rest)
    else none
  | (_, []) => none

/-- Reads what follows an opening bracket: a name, flags for the group or for the rest of the
enclosing one, or the inside of the group. -/
def opening (r : Reader) (cs : List Char) : Option (Reader × List Char) :=
  match r.flags.skip cs with
  | '?' :: 'P' :: '<' :: cs | '?' :: '<' :: cs => r.named cs
  | '?' :: cs =>
    (r.flags.read [] cs).map fun (flags, stop, rest) =>
      if stop = ':' then (r.descend flags none, rest)
      else (r.setFlags flags, rest)
  | cs => some (r.capture, cs)

/-- Applies a repetition. A `?` after it turns its preference round. -/
def repetition (r : Reader) (min : Nat) (max : Option Nat) (cs : List Char) :
    Option (Reader × List Char) :=
  let (lazy, rest) :=
    match cs with
    | '?' :: cs => (true, cs)
    | _ => (false, cs)
  (r.level.repeat? min max (lazy == r.flags.swapGreed)).map fun level => ({ r with level }, rest)

/-- A number below `2 ^ 32`, with white space around it. -/
def count (flags : Flags) (cs : List Char) : Option (Nat × List Char) :=
  let (digits, rest) :=
    Escape.gatherWhile flags Char.isDigit cs.length (cs.dropWhile Text.isBlank)
  let n := digits.foldl (fun n c => n * 10 + (c.toNat - '0'.toNat)) 0
  if digits ≠ [] ∧ n < UInt32.size then some (n, rest.dropWhile Text.isBlank) else none

/-- Reads `n`, `n,` or `n,m` and the closing brace. -/
def counts (flags : Flags) (cs : List Char) : Option (Nat × Option Nat × List Char) := do
  let (min, rest) ← count flags (flags.skip cs)
  match rest with
  | '\x7d' :: rest => some (min, some min, rest)
  | ',' :: rest =>
    match flags.skip rest with
    | '\x7d' :: rest => some (min, none, rest)
    | rest =>
      match ← count flags rest with
      | (max, '\x7d' :: rest) => if min ≤ max then some (min, some max, rest) else none
      | _ => none
  | _ => none

def escaped (r : Reader) : Escape → Reader
  | .char c => r.pushItem (r.flags.literal c)
  | .set s => r.pushItem (.set s)
  | .look l => r.pushItem (.look l)

/-- Reads the item that begins with `c`. -/
def step (props : Properties) (r : Reader) (c : Char) (cs : List Char) :
    Option (Reader × List Char) :=
  match c with
  | '(' => r.opening cs
  | ')' => r.close?.map (·, cs)
  | '|' => some ({ r with level := r.level.bar }, cs)
  | '[' => (Bracket.read props r.flags cs).map fun (s, rest) =>
    (r.push { pattern := .set s.set, depth := s.depth }, rest)
  | '?' => r.repetition 0 (some 1) cs
  | '*' => r.repetition 0 none cs
  | '+' => r.repetition 1 none cs
  | '\x7b' => do
    let (min, max, rest) ← counts r.flags cs
    r.repetition min max (r.flags.skip rest)
  | '\\' => (Escape.read props r.flags cs).map fun (e, rest) => (r.escaped e, rest)
  | '.' => r.flags.dot?.map fun p => (r.pushItem p, cs)
  | '^' => some (r.pushItem r.flags.caret, cs)
  | '$' => some (r.pushItem r.flags.dollar, cs)
  | c => some (r.pushItem (r.flags.literal c), cs)

/-- Reads at most `n` items. -/
def run (props : Properties) : Nat → Reader → List Char → Option Reader
  | 0, r, cs => if r.flags.skip cs = [] then some r else none
  | n + 1, r, cs =>
    match r.flags.skip cs with
    | [] => some r
    | c :: cs => (r.step props c cs).bind fun p => run props n p.1 p.2

end Reader

/-- The greatest depth of a text. -/
def maxDepth : Nat := 250

/-- The pattern that a text describes, if it describes one. Properties have to be in the tables. -/
def read? (text : List Char) (props : Properties := {}) : Option Pattern := do
  let r ← Reader.run props text.length {} text
  let whole := r.level.whole
  if r.outer.isEmpty ∧ whole.depth ≤ maxDepth then some whole.pattern else none

end ScanTree.Pattern
