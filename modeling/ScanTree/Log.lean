/-!
Log records. The library returns the records of a run beside its result and writes nothing itself.
-/

namespace ScanTree

inductive Level
  | trace
  | debug
  deriving DecidableEq, Repr

structure Record where
  level : Level
  text : String
  deriving DecidableEq, Repr

end ScanTree
