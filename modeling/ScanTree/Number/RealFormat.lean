import ScanTree.Number.Shortest

/-!
Writing finite numbers with their shortest digits, in place or with an exponent.
-/

namespace ScanTree

/-- How a notation writes a number `d.ddd * 10 ^ e`. -/
structure RealFormat where
  /-- The exponents `e` that are written out with zeros. -/
  inPlace : Int → Bool
  /-- What comes before an exponent that is not negative. -/
  plus : List Char
  tie : Binary64.Tie

namespace RealFormat

/-- All digits in their places, with at least one after the point. -/
def placed (d : Binary64.Decimal) : List Char :=
  let digits := Nat.toDigits 10 d.significand
  let places := (-d.exponent).toNat
  if 0 ≤ d.exponent then digits ++ List.replicate d.exponent.toNat '0' ++ ['.', '0']
  else if places < digits.length then
    digits.take (digits.length - places) ++ '.' :: digits.drop (digits.length - places)
  else '0' :: '.' :: List.replicate (places - digits.length) '0' ++ digits

/-- One digit, the others after a point, and the exponent. -/
def scaled (format : RealFormat) (d : Binary64.Decimal) : List Char :=
  let digits := Nat.toDigits 10 d.significand
  let e := d.exponent + digits.length - 1
  let mantissa :=
    match digits with
    | first :: second :: rest => first :: '.' :: second :: rest
    | one => one
  mantissa ++ 'e' ::
    (if e < 0 then '-' :: Nat.toDigits 10 e.natAbs else format.plus ++ Nat.toDigits 10 e.natAbs)

def decimal (format : RealFormat) (d : Binary64.Decimal) : List Char :=
  if format.inPlace (d.exponent + (Nat.toDigits 10 d.significand).length - 1) then placed d
  else format.scaled d

/-- The finite number with the given sign and rank. -/
def finite (format : RealFormat) (negative : Bool) (rank : Nat) : List Char :=
  let text := format.decimal (Binary64.shortest format.tie rank)
  if negative then '-' :: text else text

end RealFormat

end ScanTree
