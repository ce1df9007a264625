import Mathlib.Data.List.SplitBy
import ScanTree.Proofs.Pattern.Joined

/-!
The groups of a pattern are numbered by their opening brackets, from the first one on.

A repetition of zero times leaves nothing of what it repeats. Unless there are groups in that, the
pattern has as many groups as its text opens. Also the common beginnings that are taken out of
alternatives lose none, for two groups are never the same.
-/

namespace ScanTree.Pattern

lemma groupCount_eq_length (p : Pattern) : p.groupCount = p.groupNumbers.length := by
  induction p <;> simp_all [groupCount, groupNumbers]

lemma groupNumbers_factors (p : Pattern) : p.factors.flatMap groupNumbers = p.groupNumbers := by
  induction p <;> simp_all [factors, groupNumbers]

lemma groupNumbers_alternatives (p : Pattern) :
    p.alternatives.flatMap groupNumbers = p.groupNumbers := by
  induction p <;> simp_all [alternatives, groupNumbers]

lemma groupNumbers_sequence (ps : List Pattern) :
    (sequence ps).groupNumbers = ps.flatMap groupNumbers := by
  induction ps with
  | nil => rfl
  | cons p ps ih => cases ps <;> simp_all [sequence, groupNumbers]

lemma groupNumbers_anyOf (ps : List Pattern) :
    (anyOf ps).groupNumbers = ps.flatMap groupNumbers := by
  induction ps with
  | nil => rfl
  | cons p ps ih => cases ps <;> simp_all [anyOf, groupNumbers]

lemma groupNumbers_concat (ps : List Pattern) :
    (concat ps).groupNumbers = ps.flatMap groupNumbers := by
  rw [concat, groupNumbers_sequence, List.flatMap_assoc]
  simp only [groupNumbers_factors]

lemma groupNumbers_of_mapM {ps : List Pattern} {sets : List CharSet}
    (h : ps.mapM charSet? = some sets) : ps.flatMap groupNumbers = [] := by
  induction ps generalizing sets with
  | nil => rfl
  | cons p ps ih =>
    simp only [List.mapM_cons, Option.bind_eq_bind, Option.bind_eq_some_iff] at h
    obtain ⟨s, hs, rest, hrest, -⟩ := h
    have hp : p.groupNumbers = [] := by cases p <;> simp_all [charSet?, groupNumbers]
    rw [List.flatMap_cons, hp, ih hrest, List.nil_append]

lemma groupNumbers_of_merge? {ps : List Pattern} {s : CharSet} (h : merge? ps = some s) :
    ps.flatMap groupNumbers = [] := by
  simp only [merge?, Option.bind_eq_bind, Option.bind_eq_some_iff] at h
  obtain ⟨sets, hsets, -⟩ := h
  exact groupNumbers_of_mapM hsets

lemma groupNumbers_either (ps : List Pattern) :
    (either ps).groupNumbers = ps.flatMap groupNumbers := by
  have hall : (ps.flatMap alternatives).flatMap groupNumbers = ps.flatMap groupNumbers := by
    rw [List.flatMap_assoc]
    simp only [groupNumbers_alternatives]
  simp only [either]
  split
  · rename_i s hmerge
    rw [← hall, groupNumbers_of_merge? hmerge]
    rfl
  · rw [groupNumbers_anyOf, hall]

lemma groupNumbers_chunks (p : Pattern) :
    p.chunks.flatten.flatMap groupNumbers = p.groupNumbers := by
  rw [chunks, List.flatten_splitBy, groupNumbers_factors]

section Shared

variable {α : Type} [DecidableEq α]

lemma shared_prefix_left (as bs : List α) : shared as bs <+: as := by
  induction as generalizing bs with
  | nil => simp [shared]
  | cons a as ih =>
    cases bs with
    | nil => simp [shared]
    | cons b bs =>
      rw [shared]
      split_ifs
      · exact (List.prefix_cons_inj a).2 (ih bs)
      · exact List.nil_prefix

lemma shared_prefix_right (as bs : List α) : shared as bs <+: bs := by
  induction as generalizing bs with
  | nil => simp [shared]
  | cons a as ih =>
    cases bs with
    | nil => simp [shared]
    | cons b bs =>
      rw [shared]
      split_ifs with hab
      · subst hab
        exact (List.prefix_cons_inj a).2 (ih bs)
      · exact List.nil_prefix

/-- What all of some lists begin with is at the beginning of each. -/
lemma foldl_shared_prefix (c : List α) (cs : List (List α)) :
    ∀ d ∈ c :: cs, cs.foldl shared c <+: d := by
  induction cs generalizing c with
  | nil => simp
  | cons b cs ih =>
    have hrest := ih (shared c b)
    have hfirst := hrest _ List.mem_cons_self
    intro d hd
    rw [List.foldl_cons]
    rcases List.mem_cons.1 hd with rfl | hd
    · exact hfirst.trans (shared_prefix_left _ _)
    · rcases List.mem_cons.1 hd with rfl | hd
      · exact hfirst.trans (shared_prefix_right _ _)
      · exact hrest d (List.mem_cons_of_mem _ hd)

end Shared

lemma groupNumbers_eq_append {p : Pattern} {common : List (List Pattern)}
    (h : common <+: p.chunks) :
    p.groupNumbers = common.flatten.flatMap groupNumbers ++
      (p.chunks.drop common.length).flatten.flatMap groupNumbers := by
  obtain ⟨rest, hrest⟩ := h
  rw [← groupNumbers_chunks, ← hrest, List.drop_left, List.flatten_append, List.flatMap_append]

/-- What several patterns begin with has no groups, for none of them is in two patterns. -/
lemma groupNumbers_lift? {ps : List Pattern} {r : Pattern} (hlength : 1 < ps.length)
    (hnodup : (ps.flatMap groupNumbers).Nodup) (h : lift? ps = some r) :
    r.groupNumbers = ps.flatMap groupNumbers := by
  obtain ⟨p, q, ps, rfl⟩ : ∃ p q qs, ps = p :: q :: qs := by
    rcases ps with _ | ⟨p, _ | ⟨q, ps⟩⟩ <;> simp_all
  unfold lift? at h
  simp only [List.map_cons] at h
  set common := (q.chunks :: ps.map chunks).foldl shared p.chunks with hcommon
  have hbegin : ∀ d ∈ p :: q :: ps, common <+: d.chunks := fun d hd =>
    foldl_shared_prefix p.chunks (q.chunks :: ps.map chunks) d.chunks
      (List.mem_map_of_mem (f := chunks) hd)
  have hempty : common.flatten.flatMap groupNumbers = [] := by
    refine List.eq_nil_iff_forall_not_mem.2 fun i hi => ?_
    have hmem : ∀ d ∈ p :: q :: ps, i ∈ d.groupNumbers := fun d hd => by
      rw [groupNumbers_eq_append (hbegin d hd)]
      exact List.mem_append_left _ hi
    rw [List.flatMap_cons, List.flatMap_cons] at hnodup
    exact (List.nodup_append.1 hnodup).2.2 i (hmem p (by simp)) i
      (List.mem_append_left _ (hmem q (by simp))) rfl
  split_ifs at h
  cases h
  have hends : ∀ d ∈ p :: q :: ps,
      (concat (d.chunks.drop common.length).flatten).groupNumbers = d.groupNumbers := fun d hd => by
    rw [groupNumbers_concat, groupNumbers_eq_append (hbegin d hd), hempty, List.nil_append]
  rw [groupNumbers_concat, List.flatMap_append, hempty, List.nil_append, List.flatMap_singleton,
    groupNumbers_either, ← List.flatMap_congr hends, List.flatMap_cons, List.flatMap_cons,
    List.flatMap_cons, List.flatMap_cons, List.map_map, List.flatMap_map]
  rfl

lemma alternatives_ne_nil (p : Pattern) : p.alternatives ≠ [] := by
  induction p <;> simp_all [alternatives]

lemma groupNumbers_choice {ps : List Pattern} (hnodup : (ps.flatMap groupNumbers).Nodup) :
    (choice ps).groupNumbers = ps.flatMap groupNumbers := by
  have hall : (ps.flatMap alternatives).flatMap groupNumbers = ps.flatMap groupNumbers := by
    rw [List.flatMap_assoc]
    simp only [groupNumbers_alternatives]
  rcases ps with _ | ⟨p, _ | ⟨q, ps⟩⟩
  · rfl
  · simp [choice]
  · have hlength : 1 < ((p :: q :: ps).flatMap alternatives).length := by
      have hp := List.length_pos_iff.2 (alternatives_ne_nil p)
      have hq := List.length_pos_iff.2 (alternatives_ne_nil q)
      simp only [List.flatMap_cons, List.length_append]
      omega
    rw [← hall] at hnodup ⊢
    show ((lift? _).getD (either _)).groupNumbers = _
    rcases hlift : lift? ((p :: q :: ps).flatMap alternatives) with _ | r
    · exact groupNumbers_either _
    · exact groupNumbers_lift? hlength hnodup hlift

lemma groupNumbers_repeated {p : Pattern} {most : Option Nat}
    (h : most = some 0 → p.groupNumbers = []) (least : Nat) (greedy : Bool) :
    (p.repeated least most greedy).groupNumbers = p.groupNumbers := by
  have hbounds : ∀ bounds : Nat × Option Nat,
      bounds = (if p.isIdle then (min least 1, some (min (most.getD 1) 1)) else (least, most)) →
        bounds.2 = some 0 → p.groupNumbers = [] := by
    rintro _ rfl hnone
    refine h ?_
    split_ifs at hnone
    · rcases most with _ | most
      · cases hnone
      · simp only [Option.getD_some, Option.some.injEq] at hnone ⊢
        omega
    · exact hnone
  unfold repeated
  generalize hb : (if p.isIdle = true then (min least 1, some (min (most.getD 1) 1))
    else (least, most)) = bounds
  have hempty := hbounds bounds hb.symm
  simp only
  split_ifs with h0
  · rw [hempty h0]
    rfl
  · rfl
  · rfl

namespace Level

/-- The numbers of the groups of a level, in the order of its text. -/
def numbers (l : Level) : List Nat :=
  (l.earlier.reverse ++ l.items.reverse).flatMap fun p => p.pattern.groupNumbers

lemma numbers_push (l : Level) (p : Part) :
    (l.push p).numbers = l.numbers ++ p.pattern.groupNumbers := by
  simp [numbers, push]

lemma groupNumbers_row (ps : List Part) :
    (Part.row ps).pattern.groupNumbers = ps.flatMap fun p => p.pattern.groupNumbers := by
  simp [Part.row, groupNumbers_concat, List.flatMap_map]

lemma numbers_bar (l : Level) : l.bar.numbers = l.numbers := by
  simp [numbers, bar, current, groupNumbers_row]

lemma groupNumbers_whole {l : Level} (hnodup : l.numbers.Nodup) :
    l.whole.pattern.groupNumbers = l.numbers := by
  have hall : ((l.current :: l.earlier).reverse.map Part.pattern).flatMap groupNumbers =
      l.numbers := by
    rw [List.flatMap_map]
    simp [numbers, current, groupNumbers_row]
  rw [← hall] at hnodup ⊢
  exact groupNumbers_choice hnodup

lemma numbers_repeat? {l l' : Level} {min : Nat} {max : Option Nat} {greedy : Bool}
    (h : l.repeat? min max greedy = some l')
    (hkeep : max = some 0 → ∀ p ∈ l.items.head?, p.pattern.groupNumbers = []) :
    l'.numbers = l.numbers := by
  obtain ⟨earlier, _ | ⟨p, items⟩⟩ := l
  · cases h
  · simp only [repeat?] at h
    split_ifs at h
    cases h
    simp [numbers, groupNumbers_repeated fun hmax => hkeep hmax p rfl]

end Level

namespace Reader

variable {r r' : Reader} {cs rest : List Char}

/-- The numbers of the groups that are closed, and of those that wait for it, in the order of the
text. -/
def numbers (r : Reader) : List Nat :=
  (r.outer.reverse.flatMap fun e => e.level.numbers ++ e.index.toList) ++ r.level.numbers

/-- All groups that a reader has seen are in its patterns. -/
def Numbered (r : Reader) : Prop := r.numbers = List.range' 1 r.groups

lemma numbers_push (r : Reader) (p : Part) :
    (r.push p).numbers = r.numbers ++ p.pattern.groupNumbers := by
  simp [numbers, push, Level.numbers_push]

lemma Numbered.pushItem (h : r.Numbered) {p : Part} (hp : p.pattern.groupNumbers = []) :
    (r.push p).Numbered := by
  rw [Numbered, numbers_push, hp, List.append_nil]
  exact h

lemma Numbered.capture (h : r.Numbered) : r.capture.Numbered := by
  have hall : r.capture.numbers = r.numbers ++ [r.groups + 1] := by
    simp [numbers, Reader.capture, descend, Level.numbers]
  rw [Numbered, hall, h]
  show _ = List.range' 1 (r.groups + 1)
  rw [List.range'_concat, Nat.one_mul, Nat.add_comm]

lemma Numbered.descend (h : r.Numbered) (flags : Flags) : (r.descend flags none).Numbered := by
  simpa [Numbered, numbers, Reader.descend, Level.numbers] using h

lemma Numbered.close? (h : r.Numbered) (hclose : r.close? = some r') : r'.Numbered := by
  have hnodup : r.level.numbers.Nodup := by
    have hall : r.numbers.Nodup := by
      rw [h]
      exact List.nodup_range'
    exact (List.nodup_append.1 hall).2.1
  unfold Reader.close? at hclose
  rcases hout : r.outer with _ | ⟨e, outer⟩
  · rw [hout] at hclose
    cases hclose
  · rw [hout] at hclose
    cases hclose
    refine Eq.trans ?_ h
    rcases hindex : e.index with _ | i <;>
      simp [numbers, hout, hindex, push, Level.numbers_push, groupNumbers,
        Level.groupNumbers_whole hnodup]

lemma Numbered.repetition (h : r.Numbered) {min : Nat} {max : Option Nat}
    (hkeep : max = some 0 → ∀ p ∈ r.level.items.head?, p.pattern.groupNumbers = [])
    (hrep : r.repetition min max cs = some (r', rest)) : r'.Numbered := by
  rw [repetition_eq] at hrep
  obtain ⟨level, hlevel, heq⟩ := Option.map_eq_some_iff.1 hrep
  cases heq
  rw [Numbered, ← h]
  simp [numbers, Level.numbers_repeat? hlevel hkeep]

lemma Numbered.opening (h : r.Numbered) (hopen : r.opening cs = some (r', rest)) :
    r'.Numbered := by
  have hnamed : ∀ name, r.named name = some (r', rest) → r'.Numbered := by
    intro name hname
    unfold named at hname
    split at hname
    · split_ifs at hname
      cases hname
      exact h.capture
    · cases hname
  unfold Reader.opening at hopen
  split at hopen
  · exact hnamed _ hopen
  · exact hnamed _ hopen
  · obtain ⟨⟨flags, stop, after⟩, -, heq⟩ := Option.map_eq_some_iff.1 hopen
    dsimp only at heq
    split_ifs at heq
    · cases heq
      exact h.descend flags
    · cases heq
      exact h.pushItem rfl
  · cases hopen
    exact h.capture

/-- Whether the next item repeats something with groups zero times. -/
def dropsNext (r : Reader) : List Char → Bool
  | '\x7b' :: cs =>
    (counts r.flags cs).any (·.2.1 == some 0) &&
      r.level.items.head?.any (·.pattern.groupCount != 0)
  | _ => false

/-- **Steps** leave no number out. -/
lemma Numbered.step {props : Properties} (h : r.Numbered) {c : Char}
    (hkeep : r.dropsNext (c :: cs) = false)
    (hstep : r.step props c cs = some (r', rest)) : r'.Numbered := by
  unfold Reader.step at hstep
  split at hstep
  · exact h.opening hstep
  · obtain ⟨closed, hclose, heq⟩ := Option.map_eq_some_iff.1 hstep
    cases heq
    exact h.close? hclose
  · cases hstep
    rw [Numbered, ← h]
    simp [numbers, Level.numbers_bar]
  · obtain ⟨⟨set, after⟩, -, heq⟩ := Option.map_eq_some_iff.1 hstep
    cases heq
    exact h.pushItem rfl
  · exact h.repetition (by simp) hstep
  · exact h.repetition (by simp) hstep
  · exact h.repetition (by simp) hstep
  · obtain ⟨⟨min, max, after⟩, hread, hstep⟩ := Option.bind_eq_some_iff.1 hstep
    refine h.repetition (fun hmax p hp => ?_) hstep
    have hcount : p.pattern.groupCount = 0 := by
      have hp : r.level.items.head? = some p := hp
      simpa [dropsNext, hread, hmax, hp] using hkeep
    exact List.length_eq_zero_iff.1 (groupCount_eq_length _ ▸ hcount)
  · obtain ⟨⟨e, after⟩, -, heq⟩ := Option.map_eq_some_iff.1 hstep
    cases heq
    cases e <;> exact h.pushItem rfl
  · obtain ⟨p, hdot, heq⟩ := Option.map_eq_some_iff.1 hstep
    cases heq
    refine h.pushItem ?_
    unfold Flags.dot? at hdot
    split_ifs at hdot <;> cases hdot <;> rfl
  all_goals
    cases hstep
    exact h.pushItem rfl

/-- **Runs** leave no number out. -/
lemma Numbered.run {props : Properties} {n : Nat} (h : r.Numbered)
    (hrun : run props n r cs = some r')
    (hkeep : ∀ s ∈ passes props n r cs, s.1.dropsNext s.2 = false) : r'.Numbered := by
  induction n generalizing r cs with
  | zero =>
    unfold Reader.run at hrun
    split_ifs at hrun
    cases hrun
    exact h
  | succ n ih =>
    unfold Reader.run at hrun
    split at hrun
    · cases hrun
      exact h
    · rename_i c rest hskip
      obtain ⟨⟨mid, after⟩, hstep, hrun⟩ := Option.bind_eq_some_iff.1 hrun
      rw [passes_cons hskip hstep] at hkeep
      exact ih (h.step (hkeep _ List.mem_cons_self) hstep) hrun
        fun s hs => hkeep s (List.mem_cons_of_mem _ hs)

end Reader

/-- Whether a text repeats something with groups zero times. -/
def dropsGroup (props : Properties) (text : List Char) : Bool :=
  (Reader.passes props text.length {} text).any fun s => s.1.dropsNext s.2

/-- **Numbering**: the groups of a pattern have the numbers from one on, in the order in which the
text opens them. -/
theorem groupNumbers_own {props : Properties} {text : List Char}
    (hread : (read? text props).isSome)
    (hkeep : dropsGroup props text = false) :
    (own props text).groupNumbers = List.range' 1 (opened props text) := by
  obtain ⟨r, hrun, hout, hown, hopened⟩ := run_of_read? hread
  have hstart : Reader.Numbered {} := rfl
  have hall : r.Numbered := hstart.run hrun (by simpa [dropsGroup] using hkeep)
  have hlevel : r.level.numbers = List.range' 1 r.groups := by
    simpa [Reader.Numbered, Reader.numbers, hout] using hall
  rw [hown, hopened, Level.groupNumbers_whole, hlevel]
  rw [hlevel]
  exact List.nodup_range'

lemma groupCount_own {props : Properties} {text : List Char}
    (hread : (read? text props).isSome)
    (hkeep : dropsGroup props text = false) : (own props text).groupCount = opened props text := by
  rw [groupCount_eq_length, groupNumbers_own hread hkeep, List.length_range']

end ScanTree.Pattern
