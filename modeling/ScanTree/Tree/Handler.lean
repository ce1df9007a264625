import ScanTree.Log
import ScanTree.Tree
import ScanTree.Tree.Error

/-!
What tokens do to a tree, and the hooks that a kind may have.

Without hooks a kind opens a node, which is attached to its parent at once and takes its children
in order. A kind with an evaluator stays detached until it closes, and only its value reaches the
parent.
-/

namespace ScanTree

inductive Role
  | start
  | stop
  | skip
  | leaf
  deriving DecidableEq, Repr

def Role.name : Role → String
  | start => "Start"
  | stop => "End"
  | skip => "Skip"
  | leaf => "Leaf"

/-- What is left after an action: the state, the result and the records. A failed action keeps
what it did to the state. -/
structure Outcome (σ α : Type) where
  state : σ
  result : Except BuildError α
  log : List Record := []

namespace Outcome

variable {σ α β : Type}

/-- Goes on with the state and the value of an action that succeeded. -/
def bind (o : Outcome σ α) (next : σ → α → Outcome σ β) : Outcome σ β :=
  match o.result with
  | .error e => ⟨o.state, .error e, o.log⟩
  | .ok a =>
    let p := next o.state a
    ⟨p.state, p.result, o.log ++ p.log⟩

def addRecord (record : Record) (o : Outcome σ α) : Outcome σ α :=
  { o with log := record :: o.log }

end Outcome

/-- An evaluator takes either a leaf or a subtree that is complete. -/
inductive Eval (S : Schema)
  | leaf (f : S.Context → S.Token → Outcome S.Context S.Value)
  | subtree (f : S.Context → Tree S → Nat → Outcome S.Context S.Value)

structure Handler (S : Schema) where
  /-- Makes what an opened slot holds. -/
  start : Option (S.Context → S.Kind → S.Token → Shape S × S.Context) := none
  /-- Sees the token that closes a slot, unless the slot holds a node. -/
  stop : Option (S.Context → Shape S → S.Token → Outcome (S.Context × Shape S) Unit) := none
  eval : Option (Eval S) := none
  /-- Takes a child of the given kind. -/
  push : Option (S.Context → Shape S → S.Kind → S.Item → Outcome (S.Context × Shape S) Unit) :=
    none

namespace Handler

variable {S : Schema}

/-- Whether subtrees of the kind stay detached until they close. -/
def buffers (h : Handler S) : Bool := h.eval.isSome

def describeEval : Option (Eval S) → String
  | none => "None"
  | some (.leaf _) => "Some(Leaf(..))"
  | some (.subtree _) => "Some(Subtree(..))"

def describe (h : Handler S) : String :=
  "Handler \x7b start: " ++ toString h.start.isSome ++ ", end: " ++ toString h.stop.isSome ++
    ", eval: " ++ describeEval h.eval ++ ", push: " ++ toString h.push.isSome ++ " \x7d"

end Handler

/-- The reading of tokens and the hooks of every kind. -/
structure Plan (S : Schema) where
  classify : S.Token → Role × S.Kind
  handler : S.Kind → Handler S

end ScanTree
