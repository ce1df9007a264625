import Mathlib.Data.List.SplitBy
import ScanTree.Pattern.Normal
import ScanTree.Proofs.Pattern.Copy

/-!
Normal forms of copies.

Putting patterns together asks whether two of them are equal and of what kind they are, but never
for the number of a group. So with other numbers, distinct ones for distinct groups, the parts come
to the same whole.
-/

namespace ScanTree

lemma splitBy_map {α β : Type} {g : α → β} {r : α → α → Bool} {s : β → β → Bool}
    (h : ∀ a b, s (g a) (g b) = r a b) (l : List α) :
    (l.map g).splitBy s = (l.splitBy r).map (List.map g) := by
  have hloop : ∀ (l : List α) (a : α) (run : List α) (done : List (List α)),
      List.splitBy.loop s (l.map g) (g a) (run.map g) (done.map (List.map g)) =
        (List.splitBy.loop r l a run done).map (List.map g) := by
    intro l
    induction l with
    | nil => simp [List.splitBy.loop]
    | cons b l ih =>
      intro a run done
      rw [List.map_cons, List.splitBy.loop, List.splitBy.loop, h]
      split
      · exact ih b (a :: run) done
      · have := ih b [] ((a :: run).reverse :: done)
        simpa using this
  cases l with
  | nil => rfl
  | cons a l => exact hloop l a [] []

namespace Pattern

variable {f : Nat → Nat}

lemma renumber_injective (hf : Function.Injective f) : Function.Injective (renumber f) := by
  intro p q h
  induction p generalizing q with
  | empty => cases q <;> simp_all [renumber]
  | set s => cases q <;> simp_all [renumber]
  | look l => cases q <;> simp_all [renumber]
  | seq p₁ p₂ ih₁ ih₂ =>
    cases q <;> simp only [renumber, reduceCtorEq, seq.injEq] at h
    rw [ih₁ h.1, ih₂ h.2]
  | alt p₁ p₂ ih₁ ih₂ =>
    cases q <;> simp only [renumber, reduceCtorEq, alt.injEq] at h
    rw [ih₁ h.1, ih₂ h.2]
  | group i p ih =>
    cases q <;> simp only [renumber, reduceCtorEq, group.injEq] at h
    rw [hf h.1, ih h.2]
  | rep p min max greedy ih =>
    cases q <;> simp only [renumber, reduceCtorEq, rep.injEq] at h
    rw [ih h.1, h.2.1, h.2.2.1, h.2.2.2]

lemma factors_renumber (p : Pattern) : (p.renumber f).factors = p.factors.map (renumber f) := by
  induction p <;> simp_all [renumber, factors]

lemma alternatives_renumber (p : Pattern) :
    (p.renumber f).alternatives = p.alternatives.map (renumber f) := by
  induction p <;> simp_all [renumber, alternatives]

lemma sequence_renumber (ps : List Pattern) :
    sequence (ps.map (renumber f)) = (sequence ps).renumber f := by
  induction ps with
  | nil => rfl
  | cons p ps ih =>
    cases ps with
    | nil => rfl
    | cons q qs => simpa [sequence, renumber] using ih

lemma anyOf_renumber (ps : List Pattern) :
    anyOf (ps.map (renumber f)) = (anyOf ps).renumber f := by
  induction ps with
  | nil => rfl
  | cons p ps ih =>
    cases ps with
    | nil => rfl
    | cons q qs => simpa [anyOf, renumber] using ih

lemma concat_renumber (ps : List Pattern) :
    concat (ps.map (renumber f)) = (concat ps).renumber f := by
  rw [concat, concat, ← sequence_renumber, List.flatMap_map, List.map_flatMap]
  simp only [factors_renumber]

@[simp] lemma charSet?_renumber (p : Pattern) : (p.renumber f).charSet? = p.charSet? := by
  cases p <;> rfl

@[simp] lemma isLetter_renumber (p : Pattern) : (p.renumber f).isLetter = p.isLetter := by
  simp [isLetter]

lemma merge?_renumber (ps : List Pattern) : merge? (ps.map (renumber f)) = merge? ps := by
  have hsets : (ps.map (renumber f)).mapM charSet? = ps.mapM charSet? := by
    rw [List.mapM_map]
    simp only [Function.comp_def, charSet?_renumber]
  simp only [merge?, hsets]

lemma flatMap_alternatives_renumber (ps : List Pattern) :
    (ps.map (renumber f)).flatMap alternatives = (ps.flatMap alternatives).map (renumber f) := by
  rw [List.flatMap_map, List.map_flatMap]
  simp only [alternatives_renumber]

lemma either_renumber (ps : List Pattern) :
    either (ps.map (renumber f)) = (either ps).renumber f := by
  simp only [either, flatMap_alternatives_renumber, merge?_renumber, anyOf_renumber]
  split <;> rfl

lemma chunks_renumber (p : Pattern) :
    (p.renumber f).chunks = p.chunks.map (List.map (renumber f)) := by
  rw [chunks, chunks, factors_renumber]
  exact splitBy_map (fun a b => by simp) p.factors

lemma shared_map {α β : Type} [DecidableEq α] [DecidableEq β] {g : α → β}
    (hg : Function.Injective g) (as bs : List α) :
    shared (as.map g) (bs.map g) = (shared as bs).map g := by
  induction as generalizing bs with
  | nil => simp [shared]
  | cons a as ih =>
    cases bs with
    | nil => simp [shared]
    | cons b bs =>
      simp only [List.map_cons, shared, hg.eq_iff]
      split_ifs
      · rw [ih, List.map_cons]
      · rfl

lemma lift?_renumber (hf : Function.Injective f) (ps : List Pattern) :
    lift? (ps.map (renumber f)) = (lift? ps).map (renumber f) := by
  have hlists : Function.Injective (List.map (renumber f)) :=
    List.map_injective_iff.2 (renumber_injective hf)
  have hchunks : (ps.map (renumber f)).map chunks =
      (ps.map chunks).map (List.map (List.map (renumber f))) := by
    simp only [List.map_map, Function.comp_def, chunks_renumber]
  unfold lift?
  rw [hchunks]
  rcases ps.map chunks with _ | ⟨c, cs⟩
  · rfl
  · have hcommon : (cs.map (List.map (List.map (renumber f)))).foldl shared
        (c.map (List.map (renumber f))) = (cs.foldl shared c).map (List.map (renumber f)) := by
      induction cs generalizing c with
      | nil => rfl
      | cons d ds ih =>
        rw [List.map_cons, List.foldl_cons, List.foldl_cons, shared_map hlists, ih]
    simp only [List.map_cons, hcommon, List.map_eq_nil_iff, List.length_map, List.any_cons,
      List.any_map, Function.comp_def]
    split_ifs
    · rfl
    · simp only [Option.map_some, ← concat_renumber, ← List.map_drop,
        List.map_append, List.map_flatten, List.map_cons, List.map_nil, ← either_renumber,
        List.map_map, Function.comp_def]

lemma choice_renumber (hf : Function.Injective f) (ps : List Pattern) :
    choice (ps.map (renumber f)) = (choice ps).renumber f := by
  rcases ps with _ | ⟨p, _ | ⟨q, ps⟩⟩
  · rfl
  · rfl
  · have hall := flatMap_alternatives_renumber (f := f) (p :: q :: ps)
    rw [List.map_cons, List.map_cons] at hall ⊢
    simp only [choice, hall, lift?_renumber hf, either_renumber]
    cases lift? ((p :: q :: ps).flatMap alternatives) <;> rfl

lemma repeated_renumber (p : Pattern) (least : Nat) (most : Option Nat) (greedy : Bool) :
    (p.renumber f).repeated least most greedy = (p.repeated least most greedy).renumber f := by
  simp only [repeated, isIdle_renumber]
  generalize (if p.isIdle = true then (min least 1, some (min (most.getD 1) 1))
    else (least, most)) = bounds
  obtain ⟨least, most⟩ := bounds
  by_cases hnone : most = some 0
  · simp only [hnone, if_true]
    rfl
  · by_cases hone : least = 1 ∧ most = some 1
    · simp [hone]
    · simp only [hnone, hone, if_false]
      rfl

end Pattern

end ScanTree
