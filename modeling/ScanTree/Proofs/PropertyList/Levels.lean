import ScanTree.Proofs.PropertyList.Moves
import ScanTree.Proofs.PropertyList.Writes

/-!
The levels of a builder, and how they match the state and the tails of the scan.

There is one level for each tail, an array or a dict, and one more on top while a string or a data
block is read. A key waits in the innermost dict from when it was read to when the value is
attached, which is at its start for everything but scalars and strings.
-/

namespace ScanTree.PropertyList

abbrev Layer := Kind × Option (Shape schema)

/-- The open slots, innermost first. -/
def levels (tree : Tree schema) (frames : List (Frame schema)) : List Layer :=
  frames.map fun f => (f.kind, tree.get? f.id)

def giveTop (item : schema.Item) : List Layer → List Layer
  | [] => []
  | (kind, shape) :: ls => (kind, shape.map (accept item)) :: ls

structure Ordered (tree : Tree schema) (frames : List (Frame schema)) : Prop where
  inner : frames.Pairwise fun f g => g.id < f.id
  bounds : ∀ f ∈ frames, 0 < f.id ∧ f.id < tree.size

variable {tree tree' : Tree schema} {frames : List (Frame schema)} {f : Frame schema}

lemma ordered_nil (tree : Tree schema) : Ordered tree [] := ⟨.nil, by simp⟩

lemma Ordered.of_size (h : Ordered tree frames) (hsize : tree.size ≤ tree'.size) :
    Ordered tree' frames :=
  ⟨h.inner, fun f hf => ⟨(h.bounds f hf).1, Nat.lt_of_lt_of_le (h.bounds f hf).2 hsize⟩⟩

lemma Ordered.insert (h : Ordered tree frames) (shape : Shape schema) :
    Ordered (tree.insert shape) frames := h.of_size (by simp)

lemma Ordered.tail (h : Ordered tree (f :: frames)) : Ordered tree frames :=
  ⟨h.inner.of_cons, fun g hg => h.bounds g (List.mem_cons_of_mem _ hg)⟩

lemma Ordered.push (h : Ordered tree frames) (kind : Kind) (shape : Shape schema) :
    Ordered (tree.insert shape) (⟨kind, tree.nextId⟩ :: frames) := by
  refine ⟨List.pairwise_cons.2 ⟨fun f hf => (h.bounds f hf).2, h.inner⟩, ?_⟩
  intro f hf
  rcases List.mem_cons.1 hf with rfl | hf
  · exact ⟨Nat.succ_pos _, by simp [Tree.size, Tree.nextId, Tree.insert]⟩
  · exact (h.insert shape).bounds f hf

lemma Ordered.lt_of_mem (h : Ordered tree (f :: frames)) {g : Frame schema} (hg : g ∈ frames) :
    g.id < f.id := List.rel_of_pairwise_cons h.inner hg

lemma Ordered.holder_lt (h : Ordered tree frames) : holder frames < tree.size := by
  rcases frames with _ | ⟨f, fs⟩
  · exact Nat.succ_pos _
  · exact (h.bounds f List.mem_cons_self).2

lemma Ordered.holder_ne (h : Ordered tree (f :: frames)) : holder frames ≠ f.id := by
  rcases frames with _ | ⟨g, gs⟩
  · exact Nat.ne_of_lt (h.bounds f List.mem_cons_self).1
  · exact Nat.ne_of_lt (h.lt_of_mem List.mem_cons_self)

lemma levels_congr (h : ∀ f ∈ frames, tree'.get? f.id = tree.get? f.id) :
    levels tree' frames = levels tree frames :=
  List.map_congr_left fun f hf => by rw [h f hf]

lemma levels_insert (h : Ordered tree frames) (shape : Shape schema) :
    levels (tree.insert shape) frames = levels tree frames := by
  refine levels_congr fun f hf => ?_
  have hlt : f.id < tree.nextId := (h.bounds f hf).2
  rw [Tree.get?_insert, if_neg (Nat.ne_of_lt hlt)]

lemma levels_set (h : Ordered tree (f :: frames)) (shape : Shape schema) :
    levels (tree.set f.id shape) frames = levels tree frames :=
  levels_congr fun _ hg => Tree.get?_set_of_ne _ _ (Nat.ne_of_lt (h.lt_of_mem hg))

lemma levels_give (h : Ordered tree frames) (item : schema.Item) :
    levels (give tree (holder frames) item) frames = giveTop item (levels tree frames) := by
  rcases frames with _ | ⟨f, fs⟩
  · rfl
  · have htail : levels (give tree f.id item) fs = levels tree fs :=
      levels_congr fun g hg => by rw [get?_give, if_neg (Nat.ne_of_lt (h.lt_of_mem hg))]
    have hhead : (give tree f.id item).get? f.id = (tree.get? f.id).map (accept item) := by
      rw [get?_give, if_pos rfl]
    show (f.kind, (give tree f.id item).get? f.id) :: levels (give tree f.id item) fs = _
    rw [hhead, htail]
    rfl

lemma levels_push (h : Ordered tree frames) (kind : Kind) (shape : Shape schema)
    (item : schema.Item) :
    levels (give (tree.insert shape) (holder frames) item) (⟨kind, tree.nextId⟩ :: frames) =
      (kind, some shape) :: giveTop item (levels tree frames) := by
  have hne : tree.nextId ≠ holder frames := Nat.ne_of_gt h.holder_lt
  have hnew : (give (tree.insert shape) (holder frames) item).get? tree.nextId = some shape := by
    rw [get?_give, if_neg hne, Tree.get?_insert, if_pos rfl]
  have hold := levels_give (h.insert shape) item
  rw [levels_insert h] at hold
  show (kind, _) :: levels _ frames = _
  rw [hnew, hold]

lemma levels_push_detached (h : Ordered tree frames) (kind : Kind) (shape : Shape schema) :
    levels (tree.insert shape) (⟨kind, tree.nextId⟩ :: frames) =
      (kind, some shape) :: levels tree frames := by
  have hnew : (tree.insert shape).get? tree.nextId = some shape := by
    rw [Tree.get?_insert, if_pos rfl]
  show (kind, _) :: levels _ frames = _
  rw [hnew, levels_insert h]

/-! ### Levels and tails -/

/-- The level that goes with a tail, and whether a key waits in it if it is a dict. -/
inductive Level : Bool → String → Layer → Prop
  | array (waits : Bool) (items : List schema.Item) :
      Level waits "arrayTail" (.array, some (.seq items))
  | dict (entries : Entries schema.Item) (pending : Option String) :
      Level pending.isSome "dictTail" (.dict, some (.custom ⟨entries, pending⟩))

/-- The levels that go with some tails. A key waits in the innermost dict at most. -/
inductive Levels : Bool → List String → List Layer → Prop
  | nil (waits : Bool) : Levels waits [] []
  | cons {waits : Bool} {tail : String} {tails : List String} {l : Layer} {ls : List Layer}
      (hl : Level waits tail l) (hls : Levels false tails ls) :
      Levels waits (tail :: tails) (l :: ls)

lemma Level.tail_eq {waits : Bool} {tail : String} {l : Layer} (h : Level waits tail l) :
    tail = "arrayTail" ∨ tail = "dictTail" := by
  cases h
  · exact .inl rfl
  · exact .inr rfl

/-- A value takes the key that waits. -/
lemma Levels.giveTop {tails : List String} {ls : List Layer} (h : Levels true tails ls)
    (item : schema.Item) : Levels false tails (giveTop item ls) := by
  rcases h with _ | ⟨hl, hls⟩
  · exact .nil false
  · generalize hw : true = waits at hl
    cases hl with
    | array waits items => exact .cons (.array false _) hls
    | dict entries pending =>
      obtain ⟨key, rfl⟩ := Option.isSome_iff_exists.1 hw.symm
      exact .cons (.dict _ none) hls

lemma Level.accepts {waits : Bool} {tail : String} {l : Layer} (h : Level waits tail l)
    (hw : waits = true) : ∃ shape, l.2 = some shape ∧ Accepts l.1 shape := by
  cases h with
  | array waits items => exact ⟨_, rfl, trivial⟩
  | dict entries pending => exact ⟨_, rfl, hw⟩

/-- The innermost level takes a value if it is an array or a key waits in it. -/
lemma Levels.ready {tails : List String} (hord : Ordered tree frames)
    (h : Levels true tails (levels tree frames)) : Ready tree frames := by
  intro f hf
  rcases frames with _ | ⟨g, gs⟩
  · cases hf
  · obtain rfl : g = f := by simpa using hf
    rcases tails with _ | ⟨tail, tails⟩
    · cases h
    · rcases h with _ | ⟨hl, -⟩
      exact ⟨Nat.ne_of_gt (hord.bounds g List.mem_cons_self).1, hl.accepts rfl⟩

/-- Parts of a string: texts that have been evaluated. -/
def AllParts (items : List schema.Item) : Prop := ∀ item ∈ items, ∃ s, item = .value (.string s)

/-- The states in which the innermost dict has a key that waits. -/
def keyWaits (q : String) : Bool := q = "afterKey" || q = "main" || q = "string" || q = "sstring"

/-- The levels that go with a state and some tails. -/
inductive Matches : String → List String → List Layer → Prop
  | plain {q : String} {tails : List String} {ls : List Layer} (hstring : q ≠ "string")
      (hsstring : q ≠ "sstring") (hdata : q ≠ "data") (h : Levels (keyWaits q) tails ls) :
      Matches q tails ls
  | string {q : String} {tails : List String} {ls : List Layer} (hq : q = "string" ∨ q = "sstring")
      {n : Node schema} (hn : AllParts n.content) (h : Levels true tails ls) :
      Matches q tails ((.string, some (.node n)) :: ls)
  | data {tails : List String} {ls : List Layer} (n : Node schema) (h : Levels false tails ls) :
      Matches "data" tails ((.data, some (.node n)) :: ls)

end ScanTree.PropertyList
