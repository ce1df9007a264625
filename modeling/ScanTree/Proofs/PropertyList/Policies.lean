import ScanTree.Proofs.PropertyList.Writes
import ScanTree.Proofs.Tree.Frames

/-!
What the options mean to a builder of property lists.

They are looked at in two places only, both in a dict in which a key waits: where another key comes
and where the dict closes. All other tokens are written alike under all options.
-/

namespace ScanTree

def Builder.withContext {S : Schema} (b : Builder S) (context : S.Context) : Builder S :=
  { b with context }

namespace PropertyList

open Builder

structure SameBut (o : Options) (p p' : Outcome (Builder schema) Unit) : Prop where
  result : p'.result = p.result
  state : p'.state = p.state.withContext o

def Waits (tree : Tree schema) (frames : List (Frame schema)) : Prop :=
  ∃ f ∈ frames.head?, f.kind = .dict ∧
    ∃ d, tree.get? f.id = some (.custom d) ∧ d.pending.isSome

variable {o : Options} {b : Builder schema} {t : Token Tag} {kind : Kind}

lemma SameBut.addRecord {p p' : Outcome (Builder schema) Unit} (h : SameBut o p p')
    (record record' : Record) : SameBut o (p.addRecord record) (p'.addRecord record') :=
  ⟨h.result, h.state⟩

lemma SameBut.bind {p p' : Outcome (Builder schema) Unit}
    {next : Builder schema → Unit → Outcome (Builder schema) Unit} (h : SameBut o p p')
    (hnext : SameBut o (next p.state ()) (next (p.state.withContext o) ())) :
    SameBut o (p.bind next) (p'.bind next) := by
  obtain ⟨hresult, hstate⟩ := h
  unfold Outcome.bind
  rw [hresult, hstate]
  rcases p.result with e | _
  · exact ⟨rfl, rfl⟩
  · exact ⟨hnext.result, hnext.state⟩

lemma waits_of_pending {f : Frame schema} {fs : List (Frame schema)} {tree : Tree schema}
    {d : OpenDict} {key : String} (hkind : f.kind = .dict)
    (hget : tree.get? f.id = some (.custom d)) (hd : d.pending = some key) : Waits tree (f :: fs) :=
  ⟨f, rfl, hkind, d, hget, by rw [hd]; rfl⟩

lemma sameBut_push (parents : List (Frame schema)) (item : schema.Item)
    (h : kind = .key → ¬ Waits b.tree parents) :
    SameBut o (b.push plan parents kind item) ((b.withContext o).push plan parents kind item) := by
  rcases parents with _ | ⟨f, fs⟩
  · exact ⟨rfl, rfl⟩
  · rcases hget : b.tree.get? f.id with _ | shape
    · simp only [push, withContext, hget]
      exact ⟨rfl, rfl⟩
    · by_cases hdict : f.kind = .dict
      · simp only [push, withContext, hget, plan, handler, hdict]
        rcases shape with n | items | ⟨entries, pending⟩
        · exact ⟨rfl, rfl⟩
        · exact ⟨rfl, rfl⟩
        · by_cases hkey : kind = .key
          · rcases pending with _ | key
            · simp only [pushEntry, hkey, if_true]
              split <;> exact ⟨rfl, rfl⟩
            · exact absurd (waits_of_pending hdict hget rfl) (h hkey)
          · simp only [pushEntry, hkey, if_false]
            rcases pending with _ | key <;> exact ⟨rfl, rfl⟩
      · have hpush : (plan.handler f.kind).push = none := by
          rcases f with ⟨kind', id⟩
          cases kind' <;> first | rfl | exact absurd rfl hdict
        simp only [push, withContext, hget, hpush]
        rcases shape.append? item with _ | new <;> exact ⟨rfl, rfl⟩

lemma sameBut_openSlot :
    SameBut o (b.openSlot plan kind t) ((b.withContext o).openSlot plan kind t) := by
  obtain ⟨record, h⟩ := openSlot_eq plan b kind t
  obtain ⟨record', h'⟩ := openSlot_eq plan (b.withContext o) kind t
  have hopened : (b.withContext o).opened plan kind t = (b.opened plan kind t).withContext o := by
    cases kind <;> rfl
  rw [h, h', hopened]
  refine SameBut.addRecord ?_ _ _
  by_cases hbuffers : (plan.handler kind).buffers = true
  · simp only [hbuffers, if_true]
    exact ⟨rfl, rfl⟩
  · rw [if_neg hbuffers, if_neg hbuffers]
    refine sameBut_push _ _ fun hkey => ?_
    subst hkey
    exact absurd rfl hbuffers

lemma sameBut_endSlot (f : Frame schema) (h : ¬ Waits b.tree [f]) :
    SameBut o (b.endSlot plan f t) ((b.withContext o).endSlot plan f t) := by
  rcases hget : b.tree.get? f.id with _ | n | items | ⟨entries, pending⟩
  · simp only [endSlot, withContext, hget]
    exact ⟨rfl, rfl⟩
  · simp only [endSlot, withContext, hget]
    exact ⟨rfl, rfl⟩
  all_goals
    by_cases hdict : f.kind = .dict
    · simp only [endSlot, withContext, hget, plan, handler, hdict]
      first
        | exact ⟨rfl, rfl⟩
        | (rcases pending with _ | key
           · exact ⟨rfl, rfl⟩
           · exact absurd (waits_of_pending hdict hget rfl) h)
    · have hstop : (plan.handler f.kind).stop = none := by
        rcases f with ⟨kind', id⟩
        cases kind' <;> first | rfl | exact absurd rfl hdict
      simp only [endSlot, withContext, hget, hstop]
      exact ⟨rfl, rfl⟩

lemma sameBut_evaluate (f : Frame schema) :
    SameBut o (b.evaluate plan f) ((b.withContext o).evaluate plan f) := by
  by_cases hstring : f.kind = .string
  · simp only [evaluate, withContext, plan, handler, hstring, stringEval]
    rcases joinParts ((b.tree.children? f.id).getD []) with e | text
    · exact ⟨rfl, rfl⟩
    · have hkey : Kind.string = .key → ¬ Waits b.tree b.frames := fun h => by cases h
      have hpush := sameBut_push (o := o) b.frames (.value (.string (String.ofList text))) hkey
      exact ⟨hpush.result, hpush.state⟩
  · have heval := eval_handler hstring
    rcases hf : evaluator? f.kind with _ | g
    · simp only [evaluate, heval, hf, Option.map_none]
      exact ⟨rfl, rfl⟩
    · simp only [evaluate, heval, hf, Option.map_some, leafEval]
      exact ⟨rfl, rfl⟩

lemma sameBut_closeSlot (h : kind = .dict → ¬ Waits b.tree b.frames) :
    SameBut o (b.closeSlot plan kind t) ((b.withContext o).closeSlot plan kind t) := by
  rcases b with ⟨context, tree, _ | ⟨f, fs⟩⟩
  · exact ⟨rfl, rfl⟩
  · by_cases hkind : f.kind = kind
    · have hend : ¬ Waits tree [f] := by
        rintro ⟨g, hg, hdict, hwaits⟩
        obtain rfl : f = g := Option.some.inj hg
        exact h (hkind.symm.trans hdict) ⟨f, rfl, hdict, hwaits⟩
      simp only [closeSlot, withContext, hkind, if_true]
      exact ((sameBut_endSlot (b := ⟨context, tree, fs⟩) f hend).bind
        (sameBut_evaluate f)).addRecord _ _
    · simp only [closeSlot, withContext, hkind, if_false]
      exact ⟨rfl, rfl⟩

lemma sameBut_leaf (h : kind = .key → ¬ Waits b.tree b.frames) :
    SameBut o (b.leaf plan kind t) ((b.withContext o).leaf plan kind t) := by
  by_cases hstring : kind = .string
  · subst hstring
    exact ⟨rfl, rfl⟩
  · have heval := eval_handler hstring
    rcases hf : evaluator? kind with _ | g
    · simp only [leaf, heval, hf, Option.map_none]
      exact sameBut_push b.frames (.token t) h
    · simp only [leaf, heval, hf, Option.map_some, leafEval]
      rcases g t.text with e | v
      · exact ⟨rfl, rfl⟩
      · have hpush := sameBut_push (o := o) b.frames (.value v) h
        exact ⟨hpush.result, hpush.state⟩

/-- The token asks for the options: it is a key, or the end of a dict, and a key waits. -/
def Asks (b : Builder schema) (t : Token Tag) : Prop :=
  (t.tag = .leaf .key ∨ t.tag = .stop .dict) ∧ Waits b.tree b.frames

/-- **Options** make no difference to a write that does not ask for them. -/
theorem sameBut_write (h : ¬ Asks b t) :
    SameBut o (b.write plan t) ((b.withContext o).write plan t) := by
  rcases ht : t.tag with ⟨_ | _ | _ | _, kind⟩
  · rw [write_start ht, write_start ht]
    exact sameBut_openSlot
  · rw [write_stop ht, write_stop ht]
    exact sameBut_closeSlot fun hkind hwaits => h ⟨.inr (by rw [ht, hkind]; rfl), hwaits⟩
  · rw [write_skip ht, write_skip ht]
    exact ⟨rfl, rfl⟩
  · rw [write_leaf ht, write_leaf ht]
    exact sameBut_leaf fun hkind hwaits => h ⟨.inl (by rw [ht, hkind]; rfl), hwaits⟩

end PropertyList

end ScanTree
