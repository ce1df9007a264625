import ScanTree.Text.Quoted

/-!
Rule tables. A table gives each state of a scan an ordered list of rules; a rule says which text
it takes, what it emits, and in which state the scan goes on.
-/

namespace ScanTree

/-- Where a scan is, with the part that belongs to its grammar. -/
structure Context (X : Type) where
  position : Nat
  state : String
  ext : X
  deriving DecidableEq, Repr

/-- The text that a rule took, the state in which it did, and the whole input. -/
structure Taken where
  input : String
  state : String
  text : String

abbrev Callback (R X : Type) := Taken → Context X → R × Context X

inductive Emit (T X : Type)
  | const (tag : T)
  | compute (f : Callback T X)

inductive Goto (X : Type)
  | stay
  | const (state : String)
  | compute (f : Callback String X)

variable {T X : Type}

def Emit.apply : Emit T X → Callback T X
  | const tag, _, cx => (tag, cx)
  | compute f, taken, cx => f taken cx

def Goto.apply : Goto X → Callback String X
  | stay, taken, cx => (taken.state, cx)
  | const state, _, cx => (state, cx)
  | compute f, taken, cx => f taken cx

structure Rule (T X : Type) where
  /-- A rule without a pattern takes the empty text. -/
  pattern : Option String
  emit : Emit T X
  goto : Goto X := .stay

abbrev RuleTable (T X : Type) := List (String × List (Rule T X))

namespace Rule

/-- The text of the pattern. -/
def source (r : Rule T X) : List Char :=
  match r.pattern with
  | some p => p.toList
  | none => []

end Rule

/-! How rules are shown. -/

def Emit.describe (showTag : T → String) : Emit T X → String
  | const tag => "Const(" ++ showTag tag ++ ")"
  | compute _ => "Func(..)"

def Goto.describe : Goto X → String
  | stay => "Stay"
  | const state => "Const(" ++ Text.quoted state ++ ")"
  | compute _ => "Func(..)"

def describePattern : Option String → String
  | some p => "Some(" ++ Text.quoted p ++ ")"
  | none => "None"

def Rule.describe (showTag : T → String) (r : Rule T X) : String :=
  "Rule \x7b pattern: " ++ describePattern r.pattern ++ ", emit: " ++ r.emit.describe showTag ++
    ", goto: " ++ r.goto.describe ++ " \x7d"

end ScanTree
