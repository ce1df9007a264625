import ScanTree.Text.Alphabetic
import ScanTree.Text.Digit

/-!
Characters of names: letters, numbers and a few signs. Names go by Unicode 17, and may thus hold
some characters that are not yet known as letters elsewhere.
-/

namespace ScanTree.Text

/-- Alphabetic characters that are new in Unicode 17, as closed ranges of code points in ascending
order. -/
def newLetterRanges : List (Nat × Nat) :=
  [(0x88f, 0x88f), (0xc5c, 0xc5c), (0xcdc, 0xcdc), (0xa7ce, 0xa7cf), (0xa7d2, 0xa7d2),
   (0xa7d4, 0xa7d4), (0xa7f1, 0xa7f1), (0x10940, 0x10959), (0x10ec5, 0x10ec7),
   (0x10efa, 0x10efb), (0x11b60, 0x11b67), (0x11db0, 0x11ddb), (0x16ea0, 0x16eb8),
   (0x16ebb, 0x16ed3), (0x16ff2, 0x16ff6), (0x187f8, 0x187ff), (0x18d09, 0x18d1e),
   (0x18d80, 0x18df2), (0x1e6c0, 0x1e6de), (0x1e6e0, 0x1e6f5), (0x1e6fe, 0x1e6ff),
   (0x2b73a, 0x2b73f), (0x2cea2, 0x2cead), (0x323b0, 0x33479)]

/-- Numbers that are new in Unicode 17, as closed ranges of code points in ascending order. -/
def newNumberRanges : List (Nat × Nat) :=
  [(0x11de0, 0x11de9)]

def isNameStart (c : Char) : Bool :=
  c == '_' || isAlphabetic c || inRanges newLetterRanges c

def isNameRest (c : Char) : Bool :=
  isNameStart c || c == '.' || c == '[' || c == ']' || isNumeric c || inRanges newNumberRanges c

end ScanTree.Text
