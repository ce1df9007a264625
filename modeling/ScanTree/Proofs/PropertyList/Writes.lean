import Mathlib.Data.List.Basic
import ScanTree.PropertyList.Parse

/-!
What each token of a property list does to a builder that can take it.

A builder is seen as the stack of its levels, one for each open slot. Giving a child to the
innermost level, opening a level and closing one leave the other levels as they are, because open
slots have different numbers.
-/

namespace ScanTree.PropertyList

open Builder

/-! ### Children -/

def accept (item : schema.Item) : Shape schema → Shape schema
  | .node n => .node { n with content := n.content ++ [item] }
  | .seq items => .seq (items ++ [item])
  | .custom ⟨entries, some key⟩ => .custom ⟨entries.insert key item, none⟩
  | .custom ⟨entries, none⟩ => .custom ⟨entries, none⟩

def give (tree : Tree schema) (id : Nat) (item : schema.Item) : Tree schema :=
  match id with
  | 0 => { tree with top := tree.top ++ [item] }
  | id + 1 =>
    match tree.get? (id + 1) with
    | some shape => tree.set (id + 1) (accept item shape)
    | none => tree

lemma get?_set_self {tree : Tree schema} {id : Nat} {old : Shape schema} (hid : id ≠ 0)
    (h : tree.get? id = some old) (shape : Shape schema) :
    (tree.set id shape).get? id = some shape := by
  obtain ⟨id, rfl⟩ := Nat.exists_eq_succ_of_ne_zero hid
  have hlt : id < tree.slots.size := by
    simp only [Tree.get?] at h
    exact (Array.getElem?_eq_some_iff.1 h).1
  simp [Tree.set, Tree.get?, hlt]

lemma set_eq_self {tree : Tree schema} {id : Nat} {shape : Shape schema}
    (h : tree.get? id = some shape) : tree.set id shape = tree := by
  cases id with
  | zero => rfl
  | succ id =>
    obtain ⟨top, slots⟩ := tree
    simp only [Tree.get?] at h
    have : slots.setIfInBounds id shape = slots := by
      apply Array.ext_getElem?
      intro i
      rw [Array.getElem?_setIfInBounds]
      by_cases hi : id = i
      · subst hi
        obtain ⟨hlt, hget⟩ := Array.getElem?_eq_some_iff.1 h
        simp [hlt, ← hget]
      · simp [hi]
    simp [Tree.set, this]

lemma get?_give (tree : Tree schema) (id other : Nat) (item : schema.Item) :
    (give tree id item).get? other =
      if other = id then (tree.get? other).map (accept item) else tree.get? other := by
  cases id with
  | zero => cases other <;> simp [give, Tree.get?, accept, Tree.root]
  | succ id =>
    simp only [give]
    rcases h : tree.get? (id + 1) with _ | shape
    · by_cases ho : other = id + 1
      · simp [ho, h]
      · simp [ho]
    · by_cases ho : other = id + 1
      · subst ho
        simp [h, get?_set_self (Nat.succ_ne_zero id) h]
      · simp [ho, Tree.get?_set_of_ne tree _ ho]

@[simp] lemma size_give (tree : Tree schema) (id : Nat) (item : schema.Item) :
    (give tree id item).size = tree.size := by
  cases id with
  | zero => rfl
  | succ id =>
    simp only [give]
    rcases tree.get? (id + 1) with _ | shape <;> simp

lemma get?_eq_none_of_le {tree : Tree schema} {id : Nat} (h : tree.size ≤ id) :
    tree.get? id = none := by
  cases id with
  | zero => simp [Tree.size] at h
  | succ id =>
    have : tree.slots.size ≤ id := by simpa [Tree.size] using h
    simp [Tree.get?, this]

def holder (frames : List (Frame schema)) : Nat := frames.head?.elim 0 Frame.id

/-- An open slot of a kind takes children. A dict takes a value only for a key. -/
def Accepts : Kind → Shape schema → Prop
  | .dict, .custom d => d.pending.isSome
  | .dict, _ => False
  | _, .custom _ => False
  | _, _ => True

/-- The innermost of some open slots takes children. The root always does. -/
def Ready (tree : Tree schema) (frames : List (Frame schema)) : Prop :=
  ∀ f ∈ frames.head?, f.id ≠ 0 ∧ ∃ shape, tree.get? f.id = some shape ∧ Accepts f.kind shape

lemma push_eq {b : Builder schema} {parents : List (Frame schema)} {kind : Kind}
    (hkind : kind ≠ .key) (h : Ready b.tree parents) (item : schema.Item) :
    b.push plan parents kind item =
      ⟨{ b with tree := give b.tree (holder parents) item }, .ok (), []⟩ := by
  rcases parents with _ | ⟨f, fs⟩
  · rfl
  · obtain ⟨hid, shape, hget, haccepts⟩ := h f rfl
    obtain ⟨kind', id⟩ := f
    obtain ⟨id, rfl⟩ := Nat.exists_eq_succ_of_ne_zero hid
    simp only [Nat.succ_eq_add_one] at hget
    by_cases hdict : kind' = .dict
    · subst hdict
      rcases shape with n | items | ⟨entries, _ | key⟩
      · cases haccepts
      · cases haccepts
      · cases haccepts
      · simp [push, hget, plan, handler, pushEntry, hkind, holder, give, accept]
    · have hpush : (plan.handler kind').push = none := by
        cases kind' <;> first | rfl | exact absurd rfl hdict
      rcases shape with n | items | d
      · simp [push, hget, hpush, Shape.append?, holder, give, accept]
      · simp [push, hget, hpush, Shape.append?, holder, give, accept]
      · cases kind' <;> first | exact absurd rfl hdict | exact haccepts.elim

/-! ### Tokens -/

def Writes (b : Builder schema) (t : Token Tag) (b' : Builder schema) : Prop :=
  (b.write plan t).result = .ok () ∧ (b.write plan t).state = b'

variable {b : Builder schema} {t : Token Tag}

lemma write_skip {kind : Kind} (ht : t.tag = .skip kind) : b.write plan t = ⟨b, .ok (), []⟩ := by
  have hclass : plan.classify t = (.skip, kind) := by simp [plan, classify, ht, Tag.skip]
  rw [write, hclass]

lemma write_start {kind : Kind} (ht : t.tag = .start kind) :
    b.write plan t = b.openSlot plan kind t := by
  have hclass : plan.classify t = (.start, kind) := by simp [plan, classify, ht, Tag.start]
  rw [write, hclass]

lemma write_stop {kind : Kind} (ht : t.tag = .stop kind) :
    b.write plan t = b.closeSlot plan kind t := by
  have hclass : plan.classify t = (.stop, kind) := by simp [plan, classify, ht, Tag.stop]
  rw [write, hclass]

lemma write_leaf {kind : Kind} (ht : t.tag = .leaf kind) :
    b.write plan t = b.leaf plan kind t := by
  have hclass : plan.classify t = (.leaf, kind) := by simp [plan, classify, ht, Tag.leaf]
  rw [write, hclass]

lemma writes_skip {kind : Kind} (ht : t.tag = .skip kind) : Writes b t b := by
  rw [Writes, write_skip ht]
  exact ⟨rfl, rfl⟩

def opening (kind : Kind) (t : Token Tag) : Shape schema :=
  match kind with
  | .array => .seq []
  | .dict => .custom {}
  | kind => plainNode kind t

lemma Ready.insert {tree : Tree schema} {frames : List (Frame schema)} (h : Ready tree frames)
    (shape : Shape schema) : Ready (tree.insert shape) frames := by
  intro f hf
  obtain ⟨hid, old, hget, haccepts⟩ := h f hf
  have hne : f.id ≠ tree.nextId := by
    intro heq
    rw [heq, get?_eq_none_of_le (show tree.size ≤ tree.nextId from Nat.le_refl _)] at hget
    cases hget
  exact ⟨hid, old, by rw [Tree.get?_insert, if_neg hne, hget], haccepts⟩

lemma writes_start {kind : Kind} (ht : t.tag = .start kind)
    (hkind : kind = .array ∨ kind = .dict ∨ kind = .data) (h : Ready b.tree b.frames) :
    Writes b t
      { b with
        tree := give (b.tree.insert (opening kind t)) (holder b.frames) (.tree b.tree.nextId)
        frames := ⟨kind, b.tree.nextId⟩ :: b.frames } := by
  rw [Writes, write_start ht]
  let opened : Builder schema :=
    { b with tree := b.tree.insert (opening kind t), frames := ⟨kind, b.tree.nextId⟩ :: b.frames }
  have hpush : opened.push plan b.frames kind (.tree b.tree.nextId) = _ :=
    push_eq (by rintro rfl; simp at hkind) (h.insert _) _
  have hopen : b.openSlot plan kind t = .addRecord ⟨.trace, "tree builder: open " ++ kind.name ++
      " as " ++ (opening kind t).name⟩ (opened.push plan b.frames kind (.tree b.tree.nextId)) := by
    rcases hkind with rfl | rfl | rfl <;> rfl
  rw [hopen, hpush]
  exact ⟨rfl, rfl⟩

lemma writes_start_string (ht : t.tag = .start .string) :
    Writes b t
      { b with
        tree := b.tree.insert (plainNode .string t)
        frames := ⟨.string, b.tree.nextId⟩ :: b.frames } := by
  rw [Writes, write_start ht]
  exact ⟨rfl, rfl⟩

def evaluator? : Kind → Option (String → Except BuildError Value)
  | .chars => some charsValue
  | .escape => some escapeValue
  | .key => some keyValue
  | .int => some intValue
  | .hexInt => some hexIntValue
  | .float => some floatValue
  | .bool => some boolValue
  | _ => none

lemma eval_handler {kind : Kind} (h : kind ≠ .string) :
    (plan.handler kind).eval = (evaluator? kind).map leafEval := by
  cases kind <;> first | rfl | exact absurd rfl h

def leafItem (t : Token Tag) : Except BuildError schema.Item :=
  match evaluator? t.tag.kind with
  | some f => .value <$> f t.text
  | none => .ok (.token t)

/-- A leaf gives its item to its parent, or is refused with the error of its evaluator. -/
lemma leaf_eq {kind : Kind} (ht : t.tag = .leaf kind) (hkind : kind ≠ .string) :
    b.leaf plan kind t = match leafItem t with
      | .ok item => b.push plan b.frames kind item
      | .error e => ⟨b, .error e, []⟩ := by
  have hk : t.tag.kind = kind := by rw [ht]; rfl
  rw [leafItem, hk, leaf, eval_handler hkind]
  rcases evaluator? kind with _ | f
  · rfl
  · rcases hv : f t.text with e | v <;> simp [leafEval, Outcome.bind, hv]

lemma leaf_ok {kind : Kind} {item : schema.Item} (ht : t.tag = .leaf kind) (hkind : kind ≠ .string)
    (hitem : leafItem t = .ok item) : b.leaf plan kind t = b.push plan b.frames kind item := by
  rw [leaf_eq ht hkind, hitem]

lemma leaf_error {kind : Kind} {e : BuildError} (ht : t.tag = .leaf kind) (hkind : kind ≠ .string)
    (hitem : leafItem t = .error e) : b.leaf plan kind t = ⟨b, .error e, []⟩ := by
  rw [leaf_eq ht hkind, hitem]

lemma writes_leaf {kind : Kind} {item : schema.Item} (ht : t.tag = .leaf kind)
    (hkind : kind ≠ .string) (hkey : kind ≠ .key) (hitem : leafItem t = .ok item)
    (h : Ready b.tree b.frames) :
    Writes b t { b with tree := give b.tree (holder b.frames) item } := by
  rw [Writes, write_leaf ht, leaf_ok ht hkind hitem, push_eq hkey h]
  exact ⟨rfl, rfl⟩

lemma writes_key {key : String} {f : Frame schema} {fs : List (Frame schema)} {d : OpenDict}
    (ht : t.tag = .leaf .key) (hkey : keyValue t.text = .ok (.string key)) (hf : b.frames = f :: fs)
    (hkind : f.kind = .dict) (hget : b.tree.get? f.id = some (.custom d)) (hd : d.pending = none) :
    Writes b t { b with tree := b.tree.set f.id (.custom { d with pending := some key }) } := by
  have hitem : leafItem t = .ok (.value (.string key)) := by
    rw [leafItem, ht]
    simp [evaluator?, Tag.leaf, hkey]
  rw [Writes, write_leaf ht, leaf_ok ht (by decide) hitem, hf]
  simp [push, hget, hkind, plan, handler, pushEntry, hd, hf]

/-! ### Closing -/

lemma writes_stop_array {f : Frame schema} {fs : List (Frame schema)} {items : List schema.Item}
    (ht : t.tag = .stop .array) (hf : b.frames = f :: fs) (hkind : f.kind = .array)
    (hget : b.tree.get? f.id = some (.seq items)) : Writes b t { b with frames := fs } := by
  rw [Writes, write_stop ht]
  simp [closeSlot, hf, hkind, endSlot, hget, evaluate, plan, handler, Outcome.addRecord,
    Outcome.bind]

lemma writes_stop_dict {f : Frame schema} {fs : List (Frame schema)} {d : OpenDict}
    (ht : t.tag = .stop .dict) (hf : b.frames = f :: fs) (hkind : f.kind = .dict)
    (hget : b.tree.get? f.id = some (.custom d)) (hd : d.pending = none) :
    Writes b t { b with frames := fs } := by
  obtain ⟨entries, pending⟩ := d
  obtain rfl : pending = none := hd
  have hset := set_eq_self hget
  rw [Writes, write_stop ht]
  simp [closeSlot, hf, hkind, endSlot, hget, evaluate, plan, handler, endDict, hset,
    Outcome.addRecord, Outcome.bind]

lemma writes_stop_data {f : Frame schema} {fs : List (Frame schema)} {n : Node schema}
    (ht : t.tag = .stop .data) (hf : b.frames = f :: fs) (hkind : f.kind = .data)
    (hget : b.tree.get? f.id = some (.node n)) :
    Writes b t
      { b with
        tree := b.tree.set f.id (.node { n with closer := some t })
        frames := fs } := by
  rw [Writes, write_stop ht]
  simp [closeSlot, hf, hkind, endSlot, hget, evaluate, plan, handler, Outcome.addRecord,
    Outcome.bind]

lemma writes_stop_string {f : Frame schema} {fs : List (Frame schema)} {n : Node schema}
    {text : List Char} (ht : t.tag = .stop .string) (hf : b.frames = f :: fs)
    (hkind : f.kind = .string) (hid : f.id ≠ 0) (hget : b.tree.get? f.id = some (.node n))
    (hparts : joinParts n.content = .ok text) (h : Ready b.tree fs) (hne : holder fs ≠ f.id) :
    Writes b t
      { b with
        tree := give (b.tree.set f.id (.node { n with closer := some t })) (holder fs)
          (.value (.string (String.ofList text)))
        frames := fs } := by
  let closed : Builder schema :=
    { b with tree := b.tree.set f.id (.node { n with closer := some t }), frames := fs }
  have hready : Ready closed.tree closed.frames := by
    intro g hg
    obtain ⟨hgid, shape, hgget, haccepts⟩ := h g hg
    refine ⟨hgid, shape, ?_, haccepts⟩
    have hholder : holder fs = g.id := by rw [holder, Option.mem_def.1 hg]; rfl
    rw [← hholder] at hgget ⊢
    rw [Tree.get?_set_of_ne _ _ hne, hgget]
  have hpush := push_eq (show Kind.string ≠ .key by decide) hready
    (.value (.string (String.ofList text)))
  have hchildren : closed.tree.children? f.id = some n.content := by
    simp [closed, Tree.children?, get?_set_self hid hget, Shape.children?]
  have heval : closed.evaluate plan f =
      closed.push plan closed.frames .string (.value (.string (String.ofList text))) := by
    simp [evaluate, hkind, plan, handler, stringEval, hchildren, hparts, Outcome.bind]
  rw [Writes, write_stop ht]
  have hclose : b.closeSlot plan .string t =
      .addRecord ⟨.trace, "tree builder: close String"⟩
        (Outcome.bind ⟨closed, .ok (), []⟩ fun b _ => b.evaluate plan f) := by
    simp [closeSlot, hf, hkind, endSlot, hget, closed, Kind.name]
  rw [hclose]
  simp [Outcome.bind, Outcome.addRecord, heval, hpush, closed]

end ScanTree.PropertyList
