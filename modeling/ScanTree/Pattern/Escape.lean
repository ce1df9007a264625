import ScanTree.Pattern.Flags
import ScanTree.Pattern.Property

/-!
Items of a pattern that begin with a backslash.
-/

namespace ScanTree.Pattern

inductive Escape
  | char (c : Char)
  | set (s : CharSet)
  | look (l : Look)
  deriving DecidableEq, Repr

namespace Escape

def hexValue? (c : Char) : Option Nat :=
  if '0' ≤ c ∧ c ≤ '9' then some (c.toNat - '0'.toNat)
  else if 'a' ≤ c ∧ c ≤ 'f' then some (c.toNat - 'a'.toNat + 10)
  else if 'A' ≤ c ∧ c ≤ 'F' then some (c.toNat - 'A'.toNat + 10)
  else none

/-- The character with the code point that the digits give. -/
def ofHex? (digits : List Char) : Option Char := do
  let values ← digits.mapM hexValue?
  let n := values.foldl (fun n d => n * 16 + d) 0
  if digits ≠ [] ∧ n.isValidChar then some (Char.ofNat n) else none

/-- Takes `n` characters, or all of a shorter text. -/
def gather (flags : Flags) : Nat → List Char → List Char × List Char
  | 0, cs => ([], cs)
  | n + 1, cs =>
    match flags.skip cs with
    | [] => ([], [])
    | c :: cs =>
      let (taken, rest) := gather flags n cs
      (c :: taken, rest)

/-- Takes at most `n` characters, up to the first that does not satisfy `p`. -/
def gatherWhile (flags : Flags) (p : Char → Bool) : Nat → List Char → List Char × List Char
  | 0, cs => ([], flags.skip cs)
  | n + 1, cs =>
    match flags.skip cs with
    | [] => ([], [])
    | c :: cs =>
      if p c then
        let (taken, rest) := gatherWhile flags p n cs
        (c :: taken, rest)
      else ([], c :: cs)

/-- A code point in exactly `count` digits, or in any number of them between braces. Two digits
without braces are one byte, which is ASCII unless the flags allow other characters. -/
def hex? (flags : Flags) (count : Nat) (cs : List Char) : Option (Escape × List Char) :=
  match flags.skip cs with
  | '\x7b' :: cs =>
    match gatherWhile flags (· ≠ '\x7d') cs.length cs with
    | (digits, _ :: rest) => (ofHex? digits).map (.char ·, rest)
    | (_, []) => none
  | cs =>
    let (digits, rest) := gather flags count cs
    if digits.length = count then
      (ofHex? digits).bind fun c =>
        if count = 2 ∧ !flags.unicode ∧ !Text.isAscii c then none else some (.char c, rest)
    else none

/-- A set with a letter for it, or its complement. Without `u` the set has only its ASCII
characters. -/
def named? (flags : Flags) (full ascii : CharSet) (negated : Bool) : Option Escape :=
  (flags.side? negated (if flags.unicode then full else ascii)).map .set

def boundary (flags : Flags) (b : Boundary) : Escape := .look (.word b (!flags.unicode))

def boundaryNamed? (name : String) : Option Boundary :=
  match name with
  | "start" => some .start
  | "end" => some .stop
  | "start-half" => some .startHalf
  | "end-half" => some .stopHalf
  | _ => none

/-- Reads what follows `\b`: the name of a boundary in braces, or nothing. Braces that do not
begin with a letter or a hyphen are left for a repetition. -/
def boundary? (flags : Flags) (cs : List Char) : Option (Escape × List Char) :=
  let isNameChar (c : Char) := c.isAlpha || c == '-'
  match cs with
  | '\x7b' :: inside =>
    match flags.skip inside with
    | [] => none
    | c :: _ =>
      if isNameChar c then
        match gatherWhile flags isNameChar inside.length inside with
        | (name, '\x7d' :: rest) =>
          (boundaryNamed? (String.ofList name)).map fun b => (boundary flags b, rest)
        | _ => none
      else some (boundary flags .one, cs)
  | _ => some (boundary flags .one, cs)

/-- The set of the characters with a property, or of those without it. There is none without
`u`. -/
def ofProperty? (props : Properties) (flags : Flags) (negated : Bool) (p : Property) :
    Option Escape :=
  if flags.unicode then do
    let ranges ← props.ranges? p
    (flags.side? negated (flags.charSet (.ofTable ranges))).map .set
  else none

/-- Reads what follows `\p` or `\P`: one character, or a text in braces. -/
def property? (props : Properties) (flags : Flags) (negated : Bool) (cs : List Char) :
    Option (Escape × List Char) :=
  match flags.skip cs with
  | [] => none
  | '\x7b' :: cs =>
    match gatherWhile flags (· ≠ '\x7d') cs.length cs with
    | (text, _ :: rest) => (ofProperty? props flags negated (.ofText text)).map (·, rest)
    | (_, []) => none
  | c :: cs =>
    if c = '\\' then none
    else (ofProperty? props flags negated (.letter c)).map (·, cs)

/-- Reads what follows the backslash. An ASCII character that is no letter or digit stands for
itself, but for the two angle brackets. Letters and digits that have no meaning of their own are
refused, and so is a property that is not in the tables. -/
def read (props : Properties) (flags : Flags) : List Char → Option (Escape × List Char)
  | [] => none
  | c :: cs =>
    match c with
    | 'x' => hex? flags 2 cs
    | 'u' => hex? flags 4 cs
    | 'U' => hex? flags 8 cs
    | 'd' => (named? flags .digit .asciiDigit false).map (·, cs)
    | 'D' => (named? flags .digit .asciiDigit true).map (·, cs)
    | 's' => (named? flags .blank .asciiBlank false).map (·, cs)
    | 'S' => (named? flags .blank .asciiBlank true).map (·, cs)
    | 'w' => (named? flags .word .asciiWord false).map (·, cs)
    | 'W' => (named? flags .word .asciiWord true).map (·, cs)
    | 'p' => property? props flags false cs
    | 'P' => property? props flags true cs
    | 'a' => some (.char '\x07', cs)
    | 'f' => some (.char '\x0c', cs)
    | 't' => some (.char '\t', cs)
    | 'n' => some (.char '\n', cs)
    | 'r' => some (.char '\r', cs)
    | 'v' => some (.char '\x0b', cs)
    | 'A' => some (.look .textStart, cs)
    | 'z' => some (.look .textEnd, cs)
    | 'b' => boundary? flags cs
    | 'B' => some (boundary flags .notOne, cs)
    | '<' => some (boundary flags .start, cs)
    | '>' => some (boundary flags .stop, cs)
    | _ => if Text.isAscii c && !c.isAlphanum then some (.char c, cs) else none

end Escape

end ScanTree.Pattern
