/-!
Binary floating-point numbers of 64 bits, and the one nearest to a decimal.

The non-negative finite numbers are counted from zero upwards. Rank `e * binade + n`, where `n` is
below `2 * binade` and not below `binade` unless `e` is zero, stands for `n * 2 ^ e / unit`.
-/

namespace ScanTree

namespace Binary64

/-- The number of ranks between a power of two and the next one. -/
def binade : Nat := Nat.pow 2 52

/-- The number of finite ranks, which is also the bit pattern of infinity. -/
def rankBound : Nat := 2047 * binade

/-- The bit of the sign. -/
def signBit : Nat := Nat.pow 2 63

/-- Reciprocal of the least positive number. -/
def unit : Nat := Nat.pow 2 1074

end Binary64

inductive Binary64
  | nan
  | infinite (negative : Bool)
  | finite (negative : Bool) (rank : Fin Binary64.rankBound)
  deriving DecidableEq

namespace Binary64

/-- The number with the given sign and rank, where a rank out of range is infinity. -/
def ofRank (negative : Bool) (rank : Nat) : Binary64 :=
  if h : rank < rankBound then finite negative ⟨rank, h⟩ else infinite negative

/-- The number with the given bit pattern. All patterns of NaN are one. -/
def ofBits (bits : Nat) : Binary64 :=
  let rank := bits % signBit
  if rankBound < rank then nan else ofRank (signBit ≤ bits) rank

/-- The bit pattern of a number, which NaN has none of its own. -/
def toBits? : Binary64 → Option Nat
  | nan => none
  | infinite negative => some (rankBound + if negative then signBit else 0)
  | finite negative rank => some (rank + if negative then signBit else 0)

/-- The size of a rank is this over `unit`. -/
def size (rank : Nat) : Nat :=
  let e := rank / binade - 1
  (rank - e * binade) * Nat.pow 2 e

/-- The quotient rounded to the nearest whole number, and to the even one of two as near. -/
def roundDiv (a b : Nat) : Nat :=
  if 2 * (a % b) < b then a / b
  else if b < 2 * (a % b) then a / b + 1
  else a / b + a / b % 2

/-- The rank nearest to `num / den`. It exceeds the finite ranks where infinity is nearest. -/
def nearestRank (num den : Nat) : Nat :=
  let e := Nat.log2 (num * unit / den) - 52
  roundDiv (num * unit) (den * Nat.pow 2 e) + e * binade

/-- The rank nearest to `significand * 10 ^ exponent`. -/
def decimalRank (significand : Nat) (exponent : Int) : Nat :=
  nearestRank (significand * Nat.pow 10 exponent.toNat) (Nat.pow 10 (-exponent).toNat)

/-- The number nearest to `significand * 10 ^ exponent`. Powers of ten that are far out of range
are not computed. -/
def ofDecimal (negative : Bool) (significand : Nat) (exponent : Int) : Binary64 :=
  let places := exponent + (Nat.toDigits 10 significand).length
  if significand = 0 ∨ places < -330 then ofRank negative 0
  else if 330 < places then infinite negative
  else ofRank negative (decimalRank significand exponent)

/-- The number nearest to an integer. -/
def ofInt (n : Int) : Binary64 := ofDecimal (n < 0) n.natAbs 0

def isFinite : Binary64 → Bool
  | finite .. => true
  | _ => false

/-- Equality of numbers: NaN differs from itself, and the two zeros are the same. -/
def sameNumber : Binary64 → Binary64 → Bool
  | infinite s, infinite t => s == t
  | finite s m, finite t n => m == n && (s == t || m.val == 0)
  | _, _ => false

end Binary64

end ScanTree
