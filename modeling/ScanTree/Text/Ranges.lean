/-!
Sets of characters given by ranges of code points. Where a table does not say otherwise, it is
that of Unicode 16.
-/

namespace ScanTree.Text

/-- Whether the code point of `c` lies in one of the closed ranges. -/
def inRanges (ranges : List (Nat × Nat)) (c : Char) : Bool :=
  ranges.any fun r => r.1 ≤ c.toNat && c.toNat ≤ r.2

/-- Characters of one byte. -/
def isAscii (c : Char) : Bool := c.toNat < 0x80

end ScanTree.Text
