/-!
What can go wrong while a tree is built. Kinds are given by name, so that one type serves every
schema.
-/

namespace ScanTree

inductive BuildError
  /-- The parent has no push hook and no shape that takes children. -/
  | unabsorbable (parent child : String)
  /-- The evaluator of the kind is for the other use of it: a leaf or a subtree. -/
  | misplacedEval (kind use : String)
  | unbalanced (kind : String)
  | mismatched (expected found : String)
  /-- The kinds left open, outermost first. -/
  | unclosed (kinds : List String)
  /-- A hook refused what it was given. -/
  | rejected (kind message : String)
  deriving DecidableEq, Repr

namespace BuildError

def message : BuildError → String
  | unabsorbable parent child =>
    "tree builder: don't know how to push " ++ child ++ " onto " ++ parent
  | misplacedEval kind use =>
    "tree builder: the evaluator for " ++ kind ++ " cannot evaluate a " ++ use
  | unbalanced kind => "tree builder: end of " ++ kind ++ " without a matching start"
  | mismatched expected found =>
    "tree builder: end of " ++ found ++ " while " ++ expected ++ " is open"
  | unclosed kinds =>
    "tree builder: " ++ toString kinds.length ++ " node(s) left open: " ++ ", ".intercalate kinds
  | rejected kind message => kind ++ ": " ++ message

/-- Whether the hooks are at fault, whatever the tokens. -/
def isConfiguration : BuildError → Bool
  | unabsorbable .. | misplacedEval .. => true
  | _ => false

/-- Whether starts and ends did not pair up. -/
def isStructural : BuildError → Bool
  | unbalanced _ | mismatched .. | unclosed _ => true
  | _ => false

end BuildError

end ScanTree
