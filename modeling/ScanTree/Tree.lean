/-!
Trees under construction.

What is opened gets a slot, and a parent holds the number of its child's slot. So a child can be
attached before it is complete, and what comes into its slot later is seen from the parent.
-/

namespace ScanTree

/-- The types of a family of trees, and the names of its kinds. -/
structure Schema where
  Kind : Type
  Token : Type
  Value : Type
  Aggregate : Type
  /-- State that is handed to every hook. -/
  Context : Type
  [decidableEqKind : DecidableEq Kind]
  kindName : Kind → String

instance (S : Schema) : DecidableEq S.Kind := S.decidableEqKind

/-- A child: a token as it came, what an evaluator made of a token or subtree, or a subtree. -/
inductive Item (Token Value : Type)
  | token (t : Token)
  | value (v : Value)
  | tree (id : Nat)
  deriving DecidableEq, Repr

abbrev Schema.Item (S : Schema) := ScanTree.Item S.Token S.Value

variable {S : Schema}

structure Node (S : Schema) where
  kind : Option S.Kind
  opener : Option S.Token
  content : List S.Item
  closer : Option S.Token

/-- What a slot holds. -/
inductive Shape (S : Schema)
  | node (n : Node S)
  | seq (items : List S.Item)
  | custom (a : S.Aggregate)

namespace Shape

def name : Shape S → String
  | node _ => "node"
  | seq _ => "sequence"
  | custom _ => "custom aggregate"

/-- The children, for shapes that keep them in order. -/
def children? : Shape S → Option (List S.Item)
  | node n => some n.content
  | seq items => some items
  | custom _ => none

/-- Adds a child at the end, for shapes that keep them in order. -/
def append? (item : S.Item) : Shape S → Option (Shape S)
  | node n => some (node { n with content := n.content ++ [item] })
  | seq items => some (seq (items ++ [item]))
  | custom _ => none

end Shape

/-- The children of the root and the slots. Slots are numbered from one; the root has number
zero. -/
structure Tree (S : Schema) where
  top : List S.Item := []
  slots : Array (Shape S) := #[]

namespace Tree

/-- The root, a node without a kind that nothing opens or closes. -/
def root (t : Tree S) : Node S := ⟨none, none, t.top, none⟩

def get? (t : Tree S) : Nat → Option (Shape S)
  | 0 => some (.node t.root)
  | id + 1 => t.slots[id]?

/-- Number of slots, the root included. -/
def size (t : Tree S) : Nat := t.slots.size + 1

def isEmpty (t : Tree S) : Bool := t.slots.isEmpty

def children? (t : Tree S) (id : Nat) : Option (List S.Item) := (t.get? id).bind Shape.children?

/-- The number that the next slot will have. -/
def nextId (t : Tree S) : Nat := t.slots.size + 1

def insert (t : Tree S) (shape : Shape S) : Tree S := { t with slots := t.slots.push shape }

/-- Replaces what a slot holds. The root is no slot. -/
def set (t : Tree S) (id : Nat) (shape : Shape S) : Tree S :=
  match id with
  | 0 => t
  | id + 1 => { t with slots := t.slots.setIfInBounds id shape }

@[simp] theorem size_insert (t : Tree S) (shape : Shape S) :
    (t.insert shape).size = t.size + 1 := by
  simp [size, insert]

@[simp] theorem size_set (t : Tree S) (id : Nat) (shape : Shape S) :
    (t.set id shape).size = t.size := by
  cases id <;> simp [size, set]

@[simp] theorem top_set (t : Tree S) (id : Nat) (shape : Shape S) :
    (t.set id shape).top = t.top := by
  cases id <;> rfl

/-- A new slot has the next number and leaves the others as they are. -/
theorem get?_insert (t : Tree S) (shape : Shape S) (id : Nat) :
    (t.insert shape).get? id = if id = t.nextId then some shape else t.get? id := by
  cases id with
  | zero => simp [get?, insert, nextId, root]
  | succ id =>
    simp only [get?, insert, nextId, Array.getElem?_push, Nat.add_right_cancel_iff]

theorem get?_set_of_ne (t : Tree S) {id other : Nat} (shape : Shape S) (h : other ≠ id) :
    (t.set id shape).get? other = t.get? other := by
  cases id with
  | zero => rfl
  | succ id =>
    cases other with
    | zero => rfl
    | succ other =>
      have : id ≠ other := fun h' => h (by rw [h'])
      simp [set, get?, Array.getElem?_setIfInBounds_ne this]

end Tree

end ScanTree
