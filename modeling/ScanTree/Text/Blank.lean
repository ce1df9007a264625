import ScanTree.Text.Ranges

/-!
White space: the Unicode property of that name, line and paragraph separators included.
-/

namespace ScanTree.Text

/-- White space, as closed ranges of code points in ascending order. -/
def blankRanges : List (Nat × Nat) :=
  [(0x9, 0xd), (0x20, 0x20), (0x85, 0x85), (0xa0, 0xa0), (0x1680, 0x1680), (0x2000, 0x200a),
   (0x2028, 0x2029), (0x202f, 0x202f), (0x205f, 0x205f), (0x3000, 0x3000)]

def isBlank (c : Char) : Bool := inRanges blankRanges c

end ScanTree.Text
