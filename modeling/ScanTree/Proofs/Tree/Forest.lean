import Mathlib.Data.List.Perm.Subperm
import Mathlib.Data.List.Nodup
import ScanTree.Proofs.Tree.Frozen

/-!
The references of a tree form a forest.

A slot refers to the slots of its children by number. The only reference that a builder makes is to
the slot that it has just opened, in the slot that was innermost then, so references ascend and no
slot is referred to twice. This holds for all hooks that pass on the references that they get, and
neither make nor copy any.
-/

namespace ScanTree

open scoped List

def Item.refs {Token Value : Type} : Item Token Value → List Nat
  | .tree id => [id]
  | .token _ | .value _ => []

variable {S : Schema}

/-- The references in a shape, where `held` tells those of an aggregate. -/
def Shape.refs (held : S.Aggregate → List Nat) : Shape S → List Nat
  | .node n => n.content.flatMap Item.refs
  | .seq items => items.flatMap Item.refs
  | .custom a => held a

def Tree.refs (held : S.Aggregate → List Nat) (t : Tree S) : List Nat :=
  t.top.flatMap Item.refs ++ t.slots.toList.flatMap (Shape.refs held)

/-- No hook makes a reference or copies one: what opens has none, an end leaves none that was not
there, and a push adds the child that it gets once at most. -/
structure Honest (plan : Plan S) (held : S.Aggregate → List Nat) : Prop where
  start : ∀ {kind hook}, (plan.handler kind).start = some hook →
    ∀ context kind' token, (hook context kind' token).1.refs held = []
  stop : ∀ {kind hook}, (plan.handler kind).stop = some hook →
    ∀ context shape token, (hook context shape token).state.2.refs held <+~ shape.refs held
  push : ∀ {kind hook}, (plan.handler kind).push = some hook → ∀ context shape child item,
    (hook context shape child item).state.2.refs held <+~ shape.refs held ++ item.refs

variable {held : S.Aggregate → List Nat} {t t' : Tree S}

lemma Shape.refs_append? {old new : Shape S} {item : S.Item} (h : old.append? item = some new) :
    new.refs held = old.refs held ++ item.refs := by
  rcases old with n | items | a
  · cases h
    simp [refs]
  · cases h
    simp [refs]
  · cases h

namespace Tree

lemma mem_refs {id : Nat} :
    id ∈ t.refs held ↔ ∃ p shape, t.get? p = some shape ∧ id ∈ shape.refs held := by
  rw [refs, List.mem_append, List.mem_flatMap (f := Shape.refs held)]
  constructor
  · rintro (htop | ⟨shape, hshape, hid⟩)
    · exact ⟨0, _, rfl, htop⟩
    · obtain ⟨i, hi⟩ := List.mem_iff_getElem?.1 hshape
      exact ⟨i + 1, shape, by rw [get?, ← hi, Array.getElem?_toList], hid⟩
  · rintro ⟨_ | p, shape, hget, hid⟩
    · obtain rfl := Option.some.inj hget
      exact .inl hid
    · have hget : t.slots[p]? = some shape := hget
      rw [← Array.getElem?_toList] at hget
      exact .inr ⟨shape, List.mem_of_getElem? hget, hid⟩

lemma refs_insert {shape : Shape S} (h : shape.refs held = []) :
    (t.insert shape).refs held = t.refs held := by
  simp [refs, insert, h]

end Tree

/-- One slot, or the root, has changed, and has no more references than before and the given. -/
structure Alters (held : S.Aggregate → List Nat) (p : Nat) (extra : List Nat) (t t' : Tree S) :
    Prop where
  size : t'.size = t.size
  other : ∀ id, id ≠ p → t'.get? id = t.get? id
  slot : ∀ new, t'.get? p = some new →
    ∃ old, t.get? p = some old ∧ new.refs held ⊆ old.refs held ++ extra
  all : t'.refs held <+~ t.refs held ++ extra

lemma alters_refl (p : Nat) (extra : List Nat) (t : Tree S) : Alters held p extra t t :=
  ⟨rfl, fun _ _ => rfl, fun new hnew => ⟨new, hnew, List.subset_append_left _ _⟩,
    (List.sublist_append_left _ _).subperm⟩

lemma alters_top (t : Tree S) (item : S.Item) :
    Alters held 0 item.refs t { t with top := t.top ++ [item] } := by
  refine ⟨rfl, fun id hid => ?_, fun new hnew => ⟨_, rfl, ?_⟩, ?_⟩
  · obtain ⟨id, rfl⟩ := Nat.exists_eq_succ_of_ne_zero hid
    rfl
  · obtain rfl := Option.some.inj hnew
    simp [Shape.refs, Tree.root]
  · rw [List.subperm_iff_count]
    intro id
    simp [Tree.refs]
    omega

lemma alters_set {p : Nat} {old new : Shape S} {extra : List Nat} (hid : p ≠ 0)
    (hget : t.get? p = some old) (h : new.refs held <+~ old.refs held ++ extra) :
    Alters held p extra t (t.set p new) := by
  refine ⟨Tree.size_set _ _ _, fun id hne => Tree.get?_set_of_ne t new hne, fun new' hnew => ?_, ?_⟩
  · rw [Tree.get?_set_of_get? hid hget] at hnew
    obtain rfl := Option.some.inj hnew
    exact ⟨old, hget, h.subset⟩
  · obtain ⟨i, rfl⟩ := Nat.exists_eq_succ_of_ne_zero hid
    have hget : t.slots[i]? = some old := hget
    rw [← Array.getElem?_toList] at hget
    obtain ⟨hlt, hold⟩ := List.getElem?_eq_some_iff.1 hget
    have hsplit : t.slots.toList = t.slots.toList.take i ++ old :: t.slots.toList.drop (i + 1) := by
      rw [← hold, ← List.drop_eq_getElem_cons hlt, List.take_append_drop]
    rw [List.subperm_iff_count] at h ⊢
    intro id
    have hcount := h id
    simp only [Tree.refs, Tree.set, Array.toList_setIfInBounds, List.count_append] at hcount ⊢
    rw [List.set_eq_take_append_cons_drop, if_pos hlt]
    conv_rhs => rw [hsplit]
    simp only [List.flatMap_append, List.flatMap_cons, List.count_append]
    omega

/-! ### The invariant -/

/-- References ascend within the tree, and none stands twice. -/
structure Forest (held : S.Aggregate → List Nat) (t : Tree S) : Prop where
  ascending : ∀ p shape, t.get? p = some shape → ∀ id ∈ shape.refs held, p < id ∧ id < t.size
  once : (t.refs held).Nodup

namespace Forest

lemma lt_size (h : Forest held t) {id : Nat} (hid : id ∈ t.refs held) : id < t.size := by
  obtain ⟨p, shape, hget, hmem⟩ := Tree.mem_refs.1 hid
  exact (h.ascending p shape hget id hmem).2

lemma insert (h : Forest held t) {shape : Shape S} (hshape : shape.refs held = []) :
    Forest held (t.insert shape) := by
  refine ⟨fun p old hget id hid => ?_, by rw [Tree.refs_insert hshape]; exact h.once⟩
  rw [Tree.get?_insert] at hget
  split_ifs at hget with hp
  · obtain rfl := Option.some.inj hget
    rw [hshape] at hid
    cases hid
  · obtain ⟨hlt, hsize⟩ := h.ascending p old hget id hid
    exact ⟨hlt, by rw [Tree.size_insert]; exact Nat.lt_succ_of_lt hsize⟩

/-- A change may add references to later slots that nothing refers to. -/
lemma alters (h : Forest held t) {p : Nat} {extra : List Nat} (ha : Alters held p extra t t')
    (hnew : ∀ id ∈ extra, p < id ∧ id < t.size ∧ id ∉ t.refs held) (honce : extra.Nodup) :
    Forest held t' := by
  refine ⟨fun q shape hget id hid => ?_, ?_⟩
  · rw [ha.size]
    by_cases hq : q = p
    · subst hq
      obtain ⟨old, hold, hsub⟩ := ha.slot shape hget
      rcases List.mem_append.1 (hsub hid) with hmem | hmem
      · exact h.ascending q old hold id hmem
      · exact ⟨(hnew id hmem).1, (hnew id hmem).2.1⟩
    · rw [ha.other q hq] at hget
      exact h.ascending q shape hget id hid
  · obtain ⟨l, hperm, hsub⟩ := ha.all
    have hall : (t.refs held ++ extra).Nodup :=
      List.nodup_append'.2 ⟨h.once, honce, fun id hid hid' => (hnew id hid').2.2 hid⟩
    exact hperm.nodup_iff.1 (hsub.nodup hall)

end Forest

namespace Builder

variable {plan : Plan S} {b : Builder S} {kind : S.Kind} {token : S.Token} {item : S.Item}
  {frame : Frame S} {frames parents : List (Frame S)} {result : Except BuildError Unit}

/-! ### Writes -/

lemma Given.alters (hplan : Honest plan held) (h : Given plan kind item t parents t' result) :
    Alters held (innermost parents) item.refs t t' := by
  cases h with
  | root => exact alters_top t item
  | refused => exact alters_refl _ _ t
  | hooked hid hget hhook context =>
    exact alters_set hid hget (hplan.push hhook context _ kind item)
  | appended hid hget hhook happend =>
    exact alters_set hid hget (by rw [Shape.refs_append? happend])

lemma Ended.alters (hplan : Honest plan held) (h : Ended plan token t frame t' result) :
    Alters held frame.id [] t t' := by
  cases h with
  | kept => exact alters_refl _ _ t
  | closed hid hget => exact alters_set hid hget (by rw [List.append_nil]; exact .refl _)
  | hooked hid hget hhook context =>
    exact alters_set hid hget (by rw [List.append_nil]; exact hplan.stop hhook context _ token)

lemma Opens.refs (hplan : Honest plan held) {shape : Shape S} (h : Opens plan kind token shape) :
    shape.refs held = [] := by
  unfold Opens at h
  split at h
  · rw [h]
    rfl
  · rename_i hook hhook
    obtain ⟨context, rfl⟩ := h
    exact hplan.start hhook context kind token

lemma Given.forest (hplan : Honest plan held) (hf : Forest held t) (hitem : item.refs = [])
    (h : Given plan kind item t parents t' result) : Forest held t' :=
  hf.alters (h.alters hplan) (by simp [hitem]) (by simp [hitem])

/-- **Step**: a write keeps the forest, whether or not it is refused. -/
lemma Written.forest (hplan : Honest plan held) (hb : b.Stacked) (hf : Forest held b.tree)
    (h : Written plan b token t frames result) : Forest held t := by
  cases h with
  | skipped | refused => exact hf
  | detached hclass hshape heval => exact hf.insert (hshape.refs hplan)
  | attached hclass hshape heval hgiven =>
    -- The new number is beyond all that the tree has, so nothing refers to it yet.
    refine (hf.insert (hshape.refs hplan)).alters (hgiven.alters hplan) (fun id hid => ?_)
      (List.nodup_singleton _)
    obtain rfl : id = b.tree.size := List.mem_singleton.1 hid
    rw [Tree.size_insert, Tree.refs_insert (hshape.refs hplan)]
    exact ⟨hb.innermost_lt, Nat.lt_succ_self _, fun hmem => Nat.lt_irrefl _ (hf.lt_size hmem)⟩
  | closed hclass hframes hended => exact hf.alters (hended.alters hplan) (by simp) .nil
  | evaluated hclass hframes hended v hgiven =>
    exact hgiven.forest hplan (hf.alters (hended.alters hplan) (by simp) .nil) rfl
  | leaf hclass hitem hgiven =>
    exact hgiven.forest hplan hf (by rcases hitem with rfl | ⟨v, rfl⟩ <;> rfl)

lemma not_mem_of_alters {p id : Nat} {extra : List Nat} (h : Alters held p extra t t')
    (hid : id ∉ t.refs held) (hextra : id ∉ extra) : id ∉ t'.refs held := by
  intro hmem
  rcases List.mem_append.1 (h.all.subset hmem) with hmem | hmem
  · exact hid hmem
  · exact hextra hmem

/-- A slot that nothing refers to stays so. -/
lemma Written.not_mem (hplan : Honest plan held) {id : Nat} (hlt : id < b.tree.size)
    (hid : id ∉ b.tree.refs held) (h : Written plan b token t frames result) :
    id ∉ t.refs held := by
  cases h with
  | skipped | refused => exact hid
  | detached hclass hshape heval => rwa [Tree.refs_insert (hshape.refs hplan)]
  | attached hclass hshape heval hgiven =>
    refine not_mem_of_alters (hgiven.alters hplan) ?_ fun hmem => ?_
    · rwa [Tree.refs_insert (hshape.refs hplan)]
    · exact Nat.ne_of_lt hlt (List.mem_singleton.1 hmem)
  | closed hclass hframes hended =>
    exact not_mem_of_alters (hended.alters hplan) hid List.not_mem_nil
  | evaluated hclass hframes hended v hgiven =>
    exact not_mem_of_alters (hgiven.alters hplan)
      (not_mem_of_alters (hended.alters hplan) hid List.not_mem_nil) List.not_mem_nil
  | leaf hclass hitem hgiven =>
    refine not_mem_of_alters (hgiven.alters hplan) hid ?_
    rcases hitem with rfl | ⟨v, rfl⟩ <;> exact List.not_mem_nil

lemma Written.refs_of_eval (hplan : Honest plan held)
    (hclass : plan.classify token = (.start, kind))
    (heval : (plan.handler kind).eval ≠ none) (h : Written plan b token t frames result) :
    t.refs held = b.tree.refs held := by
  cases h with
  | skipped hclass' | refused hclass' => simp [hclass] at hclass'
  | detached hclass' hshape => exact Tree.refs_insert (hshape.refs hplan)
  | attached hclass' hshape hnone =>
    obtain ⟨-, rfl⟩ := Prod.mk.inj (hclass.symm.trans hclass')
    exact absurd hnone heval
  | closed hclass' | evaluated hclass' | leaf hclass' => cases hclass.symm.trans hclass'

/-! ### Runs -/

lemma forest_after (hplan : Honest plan held) (hb : b.Stacked) (hf : Forest held b.tree)
    (tokens : List S.Token) : Forest held (b.after plan tokens).tree := by
  induction tokens generalizing b with
  | nil => exact hf
  | cons t ts ih => exact ih (hb.write t) ((written plan hb t).forest hplan hb hf)

lemma not_mem_after (hplan : Honest plan held) (hb : b.Stacked) {id : Nat} (hlt : id < b.tree.size)
    (hid : id ∉ b.tree.refs held) (tokens : List S.Token) :
    id ∉ (b.after plan tokens).tree.refs held := by
  induction tokens generalizing b with
  | nil => exact hid
  | cons t ts ih =>
    refine ih (hb.write t) (Nat.lt_of_lt_of_le hlt ?_) ((written plan hb t).not_mem hplan hlt hid)
    rw [size_write]
    exact Nat.le_add_right _ _

/-! ### Without hooks -/

def Unhooked (plan : Plan S) : Prop :=
  ∀ kind, (plan.handler kind).push = none ∧ (plan.handler kind).stop = none

def Keeps (held : S.Aggregate → List Nat) (t t' : Tree S) : Prop :=
  ∀ p old, t.get? p = some old →
    ∃ new, t'.get? p = some new ∧ old.refs held ⊆ new.refs held

lemma keeps_refl (t : Tree S) : Keeps held t t := fun _ old hget => ⟨old, hget, fun _ h => h⟩

lemma Keeps.trans {t'' : Tree S} (h : Keeps held t t') (h' : Keeps held t' t'') :
    Keeps held t t'' := by
  intro p old hget
  obtain ⟨mid, hmid, hsub⟩ := h p old hget
  obtain ⟨new, hnew, hsub'⟩ := h' p mid hmid
  exact ⟨new, hnew, fun _ hid => hsub' (hsub hid)⟩

lemma keeps_insert (t : Tree S) (shape : Shape S) : Keeps held t (t.insert shape) := by
  intro p old hget
  have hne : p ≠ t.nextId := Nat.ne_of_lt (Tree.lt_size_of_get? hget)
  exact ⟨old, by rwa [Tree.get?_insert, if_neg hne], fun _ h => h⟩

lemma keeps_set {p : Nat} {old new : Shape S} (hid : p ≠ 0) (hget : t.get? p = some old)
    (h : old.refs held ⊆ new.refs held) : Keeps held t (t.set p new) := by
  intro q other hother
  by_cases hq : q = p
  · subst hq
    obtain rfl := Option.some.inj (hget.symm.trans hother)
    exact ⟨new, Tree.get?_set_of_get? hid hget new, h⟩
  · exact ⟨other, by rwa [Tree.get?_set_of_ne _ _ hq], fun _ h => h⟩

lemma Given.keeps (hplan : Unhooked plan) (h : Given plan kind item t parents t' result) :
    Keeps held t t' := by
  cases h with
  | root =>
    intro p old hget
    cases p with
    | zero =>
      obtain rfl := Option.some.inj hget
      refine ⟨_, rfl, ?_⟩
      simp [Shape.refs, Tree.root]
    | succ p => exact ⟨old, hget, fun _ h => h⟩
  | refused => exact keeps_refl t
  | @hooked parent rest old hook hid hget hhook context =>
    rw [(hplan parent.kind).1] at hhook
    cases hhook
  | appended hid hget hhook happend =>
    refine keeps_set hid hget ?_
    rw [Shape.refs_append? happend]
    exact List.subset_append_left _ _

lemma Ended.keeps (hplan : Unhooked plan) (h : Ended plan token t frame t' result) :
    Keeps held t t' := by
  cases h with
  | kept => exact keeps_refl t
  | closed hid hget => exact keeps_set hid hget fun _ h => h
  | hooked hid hget hhook context =>
    rw [(hplan frame.kind).2] at hhook
    cases hhook

/-- **Step**: no reference is lost. -/
lemma Written.keeps (hplan : Unhooked plan) (h : Written plan b token t frames result) :
    Keeps held b.tree t := by
  cases h with
  | skipped | refused => exact keeps_refl _
  | detached => exact keeps_insert _ _
  | attached hclass hshape heval hgiven => exact (keeps_insert _ _).trans (hgiven.keeps hplan)
  | closed hclass hframes hended => exact hended.keeps hplan
  | evaluated hclass hframes hended v hgiven =>
    exact (hended.keeps hplan).trans (hgiven.keeps hplan)
  | leaf hclass hitem hgiven => exact hgiven.keeps hplan

lemma keeps_after (held : S.Aggregate → List Nat) (hplan : Unhooked plan) (hb : b.Stacked)
    (tokens : List S.Token) : Keeps held b.tree (b.after plan tokens).tree := by
  induction tokens generalizing b with
  | nil => exact keeps_refl _
  | cons t ts ih => exact ((written plan hb t).keeps hplan).trans (ih (hb.write t))

/-- What opens without an evaluator is referred to from the slot that is innermost then. -/
lemma attached_of_write (held : S.Aggregate → List Nat) (hplan : Unhooked plan) (hb : b.Stacked)
    (hclass : plan.classify token = (.start, kind)) (heval : (plan.handler kind).eval = none)
    (hok : (b.write plan token).result = .ok ()) :
    ∃ shape, (b.write plan token).state.tree.get? (innermost b.frames) = some shape ∧
      b.tree.size ∈ shape.refs held := by
  have hwrite : b.write plan token = b.openSlot plan kind token := by rw [write, hclass]
  rw [hwrite] at hok ⊢
  obtain ⟨old, new, -, htakes, hnew⟩ := takes_of_openSlot hb heval hok
  have hnone : (b.frames.head?.bind fun f => (plan.handler f.kind).push) = none := by
    rcases b.frames with _ | ⟨f, fs⟩
    · rfl
    · exact (hplan f.kind).1
  simp only [Takes, hnone] at htakes
  exact ⟨new, hnew, by simp [Shape.refs_append? htakes, Item.refs]⟩

/-! ### The forest of a run -/

/-- What the references are after some tokens, whether or not some were refused. A slot is named by
the size of the tree before the token that opens it. -/
structure Grown (plan : Plan S) (held : S.Aggregate → List Nat) (context : S.Context)
    (tokens : List S.Token) : Prop where
  forest : Forest held (({ context } : Builder S).after plan tokens).tree
  /-- Nothing refers to a slot of a kind with an evaluator. -/
  detached : ∀ first token rest kind, tokens = first ++ token :: rest →
    plan.classify token = (.start, kind) → (plan.handler kind).eval ≠ none →
    (({ context } : Builder S).after plan first).tree.size ∉
      (({ context } : Builder S).after plan tokens).tree.refs held
  /-- One slot refers to each of the others, if nothing was refused and there are no hooks. -/
  attached : Unhooked plan → ({ context } : Builder S).Accepts plan tokens →
    ∀ first token rest kind, tokens = first ++ token :: rest →
      plan.classify token = (.start, kind) → (plan.handler kind).eval = none →
      let before := ({ context } : Builder S).after plan first
      let tree := (({ context } : Builder S).after plan tokens).tree
      (tree.refs held).count before.tree.size = 1 ∧
        ∃ shape, tree.get? (innermost before.frames) = some shape ∧
          before.tree.size ∈ shape.refs held

lemma forest_start (context : S.Context) : Forest held ({ context } : Builder S).tree := by
  have hnone : (({ context } : Builder S).tree.refs held) = [] := rfl
  refine ⟨fun p shape hget id hid => ?_, by rw [hnone]; exact .nil⟩
  have hmem : id ∈ ({ context } : Builder S).tree.refs held := Tree.mem_refs.2 ⟨p, shape, hget, hid⟩
  rw [hnone] at hmem
  cases hmem

/-- **Forests**: every run of a plan whose hooks make and copy no references grows a forest. -/
theorem grown_after (hplan : Honest plan held) (context : S.Context) (tokens : List S.Token) :
    Grown plan held context tokens := by
  have hstart := stacked_start (S := S) context
  have hforest : ∀ ts, Forest held (({ context } : Builder S).after plan ts).tree := fun ts =>
    forest_after hplan hstart (forest_start context) ts
  refine ⟨hforest tokens, ?_, ?_⟩
  · rintro first token rest kind rfl hclass heval
    have hb : (({ context } : Builder S).after plan first).Stacked := hstart.after first
    rw [after_append, after_cons]
    refine not_mem_after hplan (hb.write token) ?_ ?_ rest
    · rw [size_write, hclass]
      exact Nat.lt_succ_self _
    · rw [(written plan hb token).refs_of_eval hplan hclass heval]
      exact fun hmem => Nat.lt_irrefl _ ((hforest first).lt_size hmem)
  · rintro hunhooked hok first token rest kind rfl hclass heval
    intro before tree
    have hb : before.Stacked := hstart.after first
    obtain ⟨-, hwritten, -⟩ := accepts_append.1 hok
    obtain ⟨shape, hget, hmem⟩ := attached_of_write held hunhooked hb hclass heval hwritten
    have htree : tree = ((before.write plan token).state.after plan rest).tree := by
      rw [← after_cons, ← after_append]
    obtain ⟨new, hnew, hsub⟩ :=
      keeps_after held hunhooked (hb.write token) rest _ shape hget
    rw [← htree] at hnew
    have hin : before.tree.size ∈ tree.refs held := Tree.mem_refs.2 ⟨_, new, hnew, hsub hmem⟩
    exact ⟨List.count_eq_one_of_mem (hforest _).once hin, new, hnew, hsub hmem⟩

end Builder

end ScanTree
