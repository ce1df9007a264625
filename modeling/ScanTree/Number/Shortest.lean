import ScanTree.Number.Binary64

/-!
The shortest decimal of a number: the fewest digits that read back as the number, and of those
the nearest to it.

A decimal grid holds the multiples of one power of ten. On each grid only the two neighbours of
the number need to be tried, since the decimals that read back as a number lie around it.
-/

namespace ScanTree.Binary64

/-- Which of two decimals of the same length and distance is taken. -/
inductive Tie
  | up
  | even
  deriving DecidableEq

/-- `significand * 10 ^ exponent`. -/
structure Decimal where
  significand : Nat
  exponent : Int
  deriving DecidableEq

/-- The rank that a decimal reads as. -/
def Decimal.rank (d : Decimal) : Nat := decimalRank d.significand d.exponent

/-- The better of the two neighbours of a rank on the grid of `10 ^ exponent`, if one reads
back. -/
def neighbour? (tie : Tie) (rank : Nat) (exponent : Int) : Option Decimal :=
  let num := size rank * Nat.pow 10 (-exponent).toNat
  let den := unit * Nat.pow 10 exponent.toNat
  let low : Decimal := ⟨num / den, exponent⟩
  let high : Decimal := ⟨num / den + 1, exponent⟩
  let twice := 2 * (num % den)
  let nearer :=
    if twice < den then low
    else if den < twice then high
    else if tie = .even ∧ low.significand % 2 = 0 then low else high
  [nearer, low, high].find? (·.rank = rank)

/-- Tries a grid and the next finer ones. -/
def search (tie : Tie) (rank : Nat) : Nat → Int → Option Decimal
  | 0, _ => none
  | n + 1, exponent =>
    (neighbour? tie rank exponent).or (search tie rank n (exponent - 1))

/-- All digits of a number. -/
def exactDecimal (rank : Nat) : Decimal := ⟨size rank * Nat.pow 5 1074, -1074⟩

/-- An exponent for which the power of ten is at least the number. -/
def coarsest (rank : Nat) : Int :=
  if unit ≤ size rank then (Nat.toDigits 10 (size rank / unit)).length
  else 1 - (Nat.toDigits 10 (unit / size rank)).length

def shortest (tie : Tie) (rank : Nat) : Decimal :=
  if rank = 0 then ⟨0, 0⟩
  else (search tie rank 20 (coarsest rank)).getD (exactDecimal rank)

end ScanTree.Binary64
