/-!
Reading and writing signed 64-bit integers.
-/

namespace ScanTree

inductive IntegerError
  | empty
  | invalidDigit
  | tooLarge
  | tooSmall
  deriving DecidableEq, Repr

namespace IntegerError

def message : IntegerError → String
  | empty => "cannot parse integer from empty string"
  | invalidDigit => "invalid digit found in string"
  | tooLarge => "number too large to fit in target type"
  | tooSmall => "number too small to fit in target type"

end IntegerError

namespace Integer

/-- The value of a digit, with letters of either case after the nine. -/
def digitValue? (radix : Nat) (c : Char) : Option Nat :=
  let value :=
    if '0' ≤ c ∧ c ≤ '9' then c.toNat - '0'.toNat
    else if 'a' ≤ c ∧ c ≤ 'z' then c.toNat - 'a'.toNat + 10
    else if 'A' ≤ c ∧ c ≤ 'Z' then c.toNat - 'A'.toNat + 10
    else radix
  if value < radix then some value else none

/-- Takes digits one by one and stops at the first that is none or that leaves the range. -/
def accumulate (radix : Nat) (negative : Bool) : Int → List Char → Except IntegerError Int
  | n, [] => .ok n
  | n, c :: cs =>
    match digitValue? radix c with
    | none => .error .invalidDigit
    | some d =>
      let next := if negative then n * radix - d else n * radix + d
      if Int64.maxValue.toInt < next then .error .tooLarge
      else if next < Int64.minValue.toInt then .error .tooSmall
      else accumulate radix negative next cs

/-- Digits to `radix` with at most one sign before them. -/
def read (radix : Nat) (text : List Char) : Except IntegerError Int64 :=
  Int64.ofInt <$>
    match text with
    | [] => .error .empty
    | [c] => if c = '+' ∨ c = '-' then .error .invalidDigit else accumulate radix false 0 [c]
    | '+' :: ds => accumulate radix false 0 ds
    | '-' :: ds => accumulate radix true 0 ds
    | ds => accumulate radix false 0 ds

/-- Decimal digits, after a `-` for a negative number. -/
def write (n : Int64) : List Char :=
  let digits := Nat.toDigits 10 n.toInt.natAbs
  if n.toInt < 0 then '-' :: digits else digits

end Integer

end ScanTree
