import ScanTree.Tree.Handler

/-!
Building a tree token by token. The builder keeps the slots that are open, innermost first. An
error undoes nothing: what a token changed before it failed stays.
-/

namespace ScanTree

variable {S : Schema}

structure Frame (S : Schema) where
  kind : S.Kind
  id : Nat

structure Builder (S : Schema) where
  context : S.Context
  tree : Tree S := {}
  frames : List (Frame S) := []

namespace Builder

/-- Number of open slots. -/
def depth (b : Builder S) : Nat := b.frames.length

/-- Gives a child to the innermost open slot, or to the root if none is open. -/
def push (plan : Plan S) (b : Builder S) (parents : List (Frame S)) (kind : S.Kind)
    (item : S.Item) : Outcome (Builder S) Unit :=
  match parents with
  | [] => ⟨{ b with tree := { b.tree with top := b.tree.top ++ [item] } }, .ok (), []⟩
  | parent :: _ =>
    let refused : BuildError := .unabsorbable (S.kindName parent.kind) (S.kindName kind)
    match b.tree.get? parent.id with
    | none => ⟨b, .error refused, []⟩
    | some shape =>
      match (plan.handler parent.kind).push with
      | some hook =>
        let o := hook b.context shape kind item
        ⟨{ b with context := o.state.1, tree := b.tree.set parent.id o.state.2 }, o.result,
          o.log⟩
      | none =>
        match shape.append? item with
        | some shape => ⟨{ b with tree := b.tree.set parent.id shape }, .ok (), []⟩
        | none => ⟨b, .error refused, []⟩

/-- What a kind opens with when it has no hook for it. -/
def plainNode (kind : S.Kind) (token : S.Token) : Shape S := .node ⟨some kind, some token, [], none⟩

def openSlot (plan : Plan S) (b : Builder S) (kind : S.Kind) (token : S.Token) :
    Outcome (Builder S) Unit :=
  let h := plan.handler kind
  let (shape, context) :=
    match h.start with
    | some hook => hook b.context kind token
    | none => (plainNode kind token, b.context)
  let id := b.tree.nextId
  let opened : Builder S :=
    { context, tree := b.tree.insert shape, frames := ⟨kind, id⟩ :: b.frames }
  .addRecord ⟨.trace, "tree builder: open " ++ S.kindName kind ++ " as " ++ shape.name⟩ <|
    if h.buffers then ⟨opened, .ok (), []⟩ else opened.push plan b.frames kind (.tree id)

/-- Hands the closing token to what the slot holds. -/
def endSlot (plan : Plan S) (b : Builder S) (frame : Frame S) (token : S.Token) :
    Outcome (Builder S) Unit :=
  match b.tree.get? frame.id with
  | none => ⟨b, .ok (), []⟩
  | some (.node n) =>
    ⟨{ b with tree := b.tree.set frame.id (.node { n with closer := some token }) }, .ok (), []⟩
  | some shape =>
    match (plan.handler frame.kind).stop with
    | none => ⟨b, .ok (), []⟩
    | some hook =>
      let o := hook b.context shape token
      ⟨{ b with context := o.state.1, tree := b.tree.set frame.id o.state.2 }, o.result, o.log⟩

/-- Evaluates a slot that has been closed and gives the value to its parent. -/
def evaluate (plan : Plan S) (b : Builder S) (frame : Frame S) : Outcome (Builder S) Unit :=
  match (plan.handler frame.kind).eval with
  | none => ⟨b, .ok (), []⟩
  | some (.leaf _) => ⟨b, .error (.misplacedEval (S.kindName frame.kind) "subtree"), []⟩
  | some (.subtree f) =>
    let o := f b.context b.tree frame.id
    Outcome.bind ⟨{ b with context := o.state }, o.result, o.log⟩ fun b v =>
      b.push plan b.frames frame.kind (.value v)

def closeSlot (plan : Plan S) (b : Builder S) (kind : S.Kind) (token : S.Token) :
    Outcome (Builder S) Unit :=
  match b.frames with
  | [] => ⟨b, .error (.unbalanced (S.kindName kind)), []⟩
  | frame :: frames =>
    if frame.kind = kind then
      .addRecord ⟨.trace, "tree builder: close " ++ S.kindName kind⟩ <|
        (endSlot plan { b with frames } frame token).bind fun b _ => b.evaluate plan frame
    else ⟨b, .error (.mismatched (S.kindName frame.kind) (S.kindName kind)), []⟩

def leaf (plan : Plan S) (b : Builder S) (kind : S.Kind) (token : S.Token) :
    Outcome (Builder S) Unit :=
  match (plan.handler kind).eval with
  | none => b.push plan b.frames kind (.token token)
  | some (.subtree _) => ⟨b, .error (.misplacedEval (S.kindName kind) "leaf"), []⟩
  | some (.leaf f) =>
    let o := f b.context token
    Outcome.bind ⟨{ b with context := o.state }, o.result, o.log⟩ fun b v =>
      b.push plan b.frames kind (.value v)

/-- Takes the next token. -/
def write (plan : Plan S) (b : Builder S) (token : S.Token) : Outcome (Builder S) Unit :=
  match plan.classify token with
  | (.skip, _) => ⟨b, .ok (), []⟩
  | (.start, kind) => b.openSlot plan kind token
  | (.stop, kind) => b.closeSlot plan kind token
  | (.leaf, kind) => b.leaf plan kind token

/-- The tree, if nothing is left open. -/
def finish (b : Builder S) : Except BuildError (Tree S) :=
  if b.frames.isEmpty then .ok b.tree
  else .error (.unclosed (b.frames.reverse.map fun frame => S.kindName frame.kind))

end Builder

end ScanTree
