import ScanTree.PropertyList.Plan

/-!
From finished trees to values.
-/

namespace ScanTree.PropertyList

/-- The texts of the tokens among the children. -/
def tokenTexts (items : List schema.Item) : List String :=
  items.filterMap fun
    | .token t => some t.text
    | _ => none

/-- The value of a child, following at most `depth` references to slots. -/
def resolveWithin (tree : Tree schema) : Nat → schema.Item → Except BuildError Value
  | _, .value v => .ok v
  | _, .token t =>
    if t.tag.kind = .date then .ok (.date t.text)
    else .error (rejected t.tag.kind ("no value for token " ++ Text.quoted t.text))
  | 0, .tree id => .error (.rejected "tree" ("dangling node " ++ Describe.id id))
  | depth + 1, .tree id =>
    match tree.get? id with
    | none => .error (.rejected "tree" ("dangling node " ++ Describe.id id))
    | some (.seq items) => .array <$> items.mapM (resolveWithin tree depth)
    | some (.custom dict) =>
      .dict <$> dict.entries.mapM fun e => (e.1, ·) <$> resolveWithin tree depth e.2
    | some (.node n) =>
      if n.kind = some .data then .ok (.data (tokenTexts n.content))
      else .error (.rejected (Describe.kind n.kind) "node has no value representation")

/-- The value of a child. A slot refers to later slots only, so that no chain of references is
longer than the tree. -/
def resolve (tree : Tree schema) (item : schema.Item) : Except BuildError Value :=
  resolveWithin tree tree.size item

end ScanTree.PropertyList
