import ScanTree.Scan

/-!
Options of the property-list reader.
-/

namespace ScanTree

/-- What a dict does with a key that comes while another one still waits for its value. -/
inductive KeyPolicy
  | overwrite
  | reject
  deriving DecidableEq, Repr

structure Options where
  keyPolicy : KeyPolicy := .overwrite
  /-- Number of characters of input that a syntax error quotes. -/
  excerptLength : Nat := defaultExcerptLength
  deriving DecidableEq, Repr

end ScanTree
