import ScanTree.Number.Binary64

/-!
Reading real numbers: an optional sign, then digits with an optional point among them and an
optional exponent, or the name of a value that is not finite.
-/

namespace ScanTree

inductive RealError
  | empty
  | invalid
  deriving DecidableEq, Repr

namespace RealError

def message : RealError → String
  | empty => "cannot parse float from empty string"
  | invalid => "invalid float literal"

end RealError

namespace RealText

/-- The leading decimal digits of a text, and what follows them. -/
def digits (cs : List Char) : List Char × List Char := cs.span Char.isDigit

def natOfDigits (ds : List Char) : Nat :=
  ds.foldl (fun n c => n * 10 + (c.toNat - '0'.toNat)) 0

/-- A sign, if the text begins with one, and the rest. -/
def sign : List Char → Bool × List Char
  | '-' :: cs => (true, cs)
  | '+' :: cs => (false, cs)
  | cs => (false, cs)

/-- The exponent that makes up the whole of the text. No text at all means zero. -/
def exponent? : List Char → Option Int
  | [] => some 0
  | c :: cs =>
    let (negative, ds) := sign cs
    if (c = 'e' ∨ c = 'E') ∧ ds ≠ [] ∧ ds.all Char.isDigit then
      some (if negative then -(natOfDigits ds : Int) else natOfDigits ds)
    else none

/-- An unsigned number in digits. -/
def number? (negative : Bool) (cs : List Char) : Option Binary64 :=
  let (whole, rest) := digits cs
  let (places, rest) :=
    match rest with
    | '.' :: more => digits more
    | _ => ([], rest)
  if whole ++ places = [] then none
  else (exponent? rest).map fun e =>
    Binary64.ofDecimal negative (natOfDigits (whole ++ places)) (e - places.length)

/-- A value that is written by name, in letters of either case. -/
def named? (negative : Bool) (cs : List Char) : Option Binary64 :=
  let name := cs.map Char.toLower
  if name = "nan".toList then some .nan
  else if name = "inf".toList ∨ name = "infinity".toList then some (.infinite negative)
  else none

def read (cs : List Char) : Except RealError Binary64 :=
  if cs = [] then .error .empty
  else
    let (negative, rest) := sign cs
    match (number? negative rest).or (named? negative rest) with
    | some x => .ok x
    | none => .error .invalid

end RealText

end ScanTree
