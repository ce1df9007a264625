import Mathlib.Data.List.Forall2
import ScanTree.Proofs.Pattern.Spelling

/-!
The ways of a pattern on a text and on the beginning of that text.

A pattern without conditions on the characters around has the same ways on both, in the same order,
but for those that go beyond the cut. So a match that stays before the cut is a match of the shorter
text too. One that goes beyond tells nothing of the shorter text, unless the first way of the
pattern is always the shortest.
-/

namespace ScanTree

/-- Two runs that have come equally far, the second on a text that goes on with `x`. -/
structure Run.Cut (x : List Char) (r r' : Run) : Prop where
  rest : r'.place.rest = r.place.rest ++ x
  taken : r'.taken = r.taken

def Run.isBefore (x : List Char) (r : Run) : Bool := x.length ≤ r.place.rest.length

lemma Run.Cut.isBefore {x : List Char} {r r' : Run} (h : Run.Cut x r r') :
    r'.isBefore x = true := by
  simp [Run.isBefore, h.rest]

namespace Pattern

/-! ### Ways on both texts -/

/-- On the shorter text there are the ways of the longer one that stay before the cut. -/
def Cuts (x : List Char) (f : Run → List Run) : Prop :=
  ∀ r r', Run.Cut x r r' → List.Forall₂ (Run.Cut x) (f r) ((f r').filter (Run.isBefore x))

def Shrinks (f : Run → List Run) : Prop :=
  ∀ r, ∀ r' ∈ f r, r'.place.rest.length ≤ r.place.rest.length

variable {x : List Char} {f g : Run → List Run} {p q : Pattern}

lemma shrinks_ways (p : Pattern) : Shrinks p.ways := by
  intro r r' hr
  obtain ⟨w, -, hrest, -⟩ := covers_of_mem_ways hr
  simp [hrest]

lemma cuts_singleton : Cuts x fun r => [r] := by
  intro r r' h
  simpa [h.isBefore] using h

/-- What has gone beyond the cut stays beyond it. -/
lemma filter_eq_nil_of_shrinks (hg : Shrinks g) {r : Run} (hr : r.isBefore x = false) :
    (g r).filter (Run.isBefore x) = [] := by
  simp only [List.filter_eq_nil_iff, Run.isBefore, decide_eq_true_eq, decide_eq_false_iff_not,
    Nat.not_le] at hr ⊢
  exact fun r' hr' => Nat.lt_of_le_of_lt (hg r r' hr') hr

lemma cuts_flatMap (hf : Cuts x f) (hg : Cuts x g) (hshrinks : Shrinks g) :
    Cuts x fun r => (f r).flatMap g := by
  intro r r' h
  have hdrop : ∀ rs : List Run, (rs.flatMap g).filter (Run.isBefore x) =
      (rs.filter (Run.isBefore x)).flatMap fun r => (g r).filter (Run.isBefore x) := by
    intro rs
    induction rs with
    | nil => rfl
    | cons s rs ih =>
      rw [List.flatMap_cons, List.filter_append, ih, List.filter_cons]
      split_ifs with hs
      · rfl
      · rw [filter_eq_nil_of_shrinks hshrinks (by simpa using hs), List.nil_append]
  simp only [hdrop]
  exact List.rel_flatMap (hf r r' h) fun s s' hs => hg s s' hs

lemma cuts_append (hf : Cuts x f) (hg : Cuts x g) : Cuts x fun r => f r ++ g r := by
  intro r r' h
  simp only [List.filter_append]
  exact List.rel_append (hf r r' h) (hg r r' h)

lemma cuts_set (s : CharSet) : Cuts x (set s).ways := by
  intro r r' h
  have htake : ∀ r : Run, (set s).ways r = (r.take? s).toList := fun _ => rfl
  rcases hr : r.place.rest with _ | ⟨c, cs⟩
  · have hnone : (set s).ways r = [] := by simp [htake, Run.take?, hr]
    have hbeyond : ((set s).ways r').filter (Run.isBefore x) = [] := by
      rw [List.filter_eq_nil_iff]
      intro s' hs'
      obtain ⟨c, cs, hrest, -, rfl⟩ := Run.take?_eq_some_iff.1 (Option.mem_toList.1 hs')
      have hx : x = c :: cs := by rw [← hrest, h.rest, hr, List.nil_append]
      simp [Run.isBefore, hx]
    rw [hnone, hbeyond]
    exact .nil
  · have hr' : r'.place.rest = c :: (cs ++ x) := by rw [h.rest, hr, List.cons_append]
    by_cases hc : s.contains c = true
    · have hcut : Run.Cut x ⟨⟨some c, cs⟩, r.taken + 1, r.groups⟩
          ⟨⟨some c, cs ++ x⟩, r'.taken + 1, r'.groups⟩ := ⟨rfl, by rw [h.taken]⟩
      simpa [htake, Run.take?, hr, hr', hc, hcut.isBefore] using hcut
    · simp [htake, Run.take?, hr, hr', hc]

lemma shrinks_turns (hf : Shrinks f) (n : Nat) : Shrinks (turns f n) :=
  turns_induction (P := fun r r' => r'.place.rest.length ≤ r.place.rest.length)
    (fun _ => Nat.le_refl _) (fun h h' => Nat.le_trans h' h) hf n

lemma shrinks_upTo (hf : Shrinks f) (greedy : Bool) (n : Nat) : Shrinks (upTo f greedy n) :=
  upTo_induction (P := fun r r' => r'.place.rest.length ≤ r.place.rest.length)
    (fun _ => Nat.le_refl _) (fun h h' => Nat.le_trans h' h) hf greedy n

lemma cuts_turns (hf : Cuts x f) (hshrinks : Shrinks f) (n : Nat) : Cuts x (turns f n) := by
  induction n with
  | zero => exact cuts_singleton
  | succ n ih => exact cuts_flatMap hf ih (shrinks_turns hshrinks n)

lemma cuts_upTo (hf : Cuts x f) (hshrinks : Shrinks f) (greedy : Bool) (n : Nat) :
    Cuts x (upTo f greedy n) := by
  induction n with
  | zero => exact cuts_singleton
  | succ n ih =>
    have hmore := cuts_flatMap hf ih (shrinks_upTo hshrinks greedy n)
    cases greedy
    · exact cuts_append cuts_singleton hmore
    · exact cuts_append hmore cuts_singleton

/-- A loop without a bound makes as many turns on the shorter text as there are characters in the
longer one, for the last of them come to nothing. -/
lemma cuts_rep (hp : Cuts x p.ways) (hconsumes : p.Consumes) (min : Nat) (max : Option Nat)
    (greedy : Bool) : Cuts x (rep p min max greedy).ways := by
  have hshrinks := shrinks_ways p
  refine cuts_flatMap (cuts_turns hp hshrinks min) (fun r r' h => ?_) fun r =>
    shrinks_upTo hshrinks greedy _ r
  rcases max with _ | max
  · have hle : r.place.rest.length ≤ r'.place.rest.length := by rw [h.rest]; simp
    simp only [Option.elim_none]
    rw [hconsumes.upTo_eq (Nat.le_refl _) hle]
    exact cuts_upTo hp hshrinks greedy _ r r' h
  · exact cuts_upTo hp hshrinks greedy _ r r' h

def isBlind : Pattern → Bool
  | empty | set _ => true
  | look _ => false
  | seq p q | alt p q => p.isBlind && q.isBlind
  | group _ p => p.isBlind
  | rep p .. => p.isBlind

/-- **Cutting a text** takes the ways that go beyond the cut, and no others. -/
theorem cuts_ways (hp : p.isPlain) (hb : p.isBlind) : Cuts x p.ways := by
  fun_induction isPlain p with
  | case1 => exact cuts_singleton
  | case2 s => exact cuts_set s
  | case3 l => cases hb
  | case4 p q ihp ihq =>
    simp only [isBlind, Bool.and_eq_true] at hp hb
    exact cuts_flatMap (ihp hp.1 hb.1) (ihq hp.2 hb.2) (shrinks_ways q)
  | case5 p q ihp ihq =>
    simp only [isBlind, Bool.and_eq_true] at hp hb
    exact cuts_append (ihp hp.1 hb.1) (ihq hp.2 hb.2)
  | case6 i p ih =>
    exact fun r r' h => ih hp hb (r.enter i) (r'.enter i) ⟨h.rest, h.taken⟩
  | case7 s min max greedy => exact cuts_rep (cuts_set s) (consumes_set s) min max greedy
  | case8 y z w greedy =>
    exact cuts_rep (cuts_append (cuts_set y) (cuts_flatMap (cuts_set z) (cuts_set w)
      (shrinks_ways (set w)))) (consumes_oneOrTwo y z w) 0 none greedy
  | case9 => cases hp

/-! ### Matches on both texts -/

variable {place place' : Place} {stop : Run}

lemma match?_of_cut (hp : p.isPlain) (hb : p.isBlind) (h : place'.rest = place.rest ++ x)
    (hm : p.match? place' = some stop) (hle : stop.taken ≤ place.rest.length) :
    ∃ stop', p.match? place = some stop' ∧ stop'.taken = stop.taken := by
  have hcuts := cuts_ways hp hb (.start place) (.start place') ⟨h, rfl⟩
  obtain ⟨-, -, hplace⟩ := spells_of_match? hp hm
  rw [match?_eq_head? hp] at hm
  rcases hways : p.ways (.start place') with _ | ⟨first, ways⟩
  · simp [hways] at hm
  · obtain rfl : first = stop := by simpa [hways] using hm
    have hbefore : first.isBefore x = true := by
      simp only [Run.isBefore, hplace, Place.rest_past, h, List.length_drop, List.length_append,
        decide_eq_true_eq]
      omega
    rw [hways, List.filter_cons_of_pos hbefore] at hcuts
    obtain ⟨s, ss, hs, -, heq⟩ := List.forall₂_cons_right_iff.1 hcuts
    exact ⟨s, by rw [match?_eq_head? hp, heq]; rfl, hs.taken.symm⟩

lemma match?_none_of_cut (hp : p.isPlain) (hb : p.isBlind) (h : place'.rest = place.rest ++ x)
    (hm : p.match? place' = none) : p.match? place = none := by
  have hcuts := cuts_ways hp hb (.start place) (.start place') ⟨h, rfl⟩
  rw [match?_eq_head? hp, List.head?_eq_none_iff] at hm ⊢
  rw [hm] at hcuts
  exact List.forall₂_nil_right_iff.1 hcuts

/-! ### Patterns that take the shortest first -/

/-- No way takes less than the first. -/
def Shortest (p : Pattern) : Prop :=
  ∀ r, ∀ first ∈ (p.ways r).head?, ∀ s ∈ p.ways r, first.taken ≤ s.taken

/-- A match beyond the cut, where no way is shorter, leaves none on the shorter text. -/
lemma Shortest.match?_eq_none (hs : p.Shortest) (hp : p.isPlain) (hb : p.isBlind)
    (h : place'.rest = place.rest ++ x) (hm : p.match? place' = some stop)
    (hlt : place.rest.length < stop.taken) : p.match? place = none := by
  rcases hn : p.match? place with _ | short
  · rfl
  · have hcuts := cuts_ways hp hb (.start place) (.start place') ⟨h, rfl⟩
    obtain ⟨hle, -, -⟩ := spells_of_match? hp hn
    rw [match?_eq_head? hp] at hm hn
    obtain ⟨way, hway, hcut⟩ : ∃ way ∈ (p.ways (.start place')).filter (Run.isBefore x),
        Run.Cut x short way := by
      rcases hways : p.ways (.start place) with _ | ⟨first, ways⟩
      · simp [hways] at hn
      · obtain rfl : first = short := by simpa [hways] using hn
        rw [hways] at hcuts
        obtain ⟨way, more, hcut, -, heq⟩ := List.forall₂_cons_left_iff.1 hcuts
        exact ⟨way, by rw [heq]; exact List.mem_cons_self, hcut⟩
    have := hs (.start place') stop hm way (List.mem_of_mem_filter hway)
    rw [hcut.taken] at this
    omega

def Ascends (p : Pattern) : Prop := ∀ r, (p.ways r).Pairwise fun s t => s.taken ≤ t.taken

lemma Ascends.shortest (h : p.Ascends) : p.Shortest := by
  intro r first hfirst s hs
  have hr := h r
  rcases hways : p.ways r with _ | ⟨t, ts⟩
  · simp [hways] at hs
  · rw [hways] at hfirst hs hr
    obtain rfl : t = first := by simpa using hfirst
    rcases List.mem_cons.1 hs with rfl | hs
    · exact Nat.le_refl _
    · exact List.rel_of_pairwise_cons hr hs

def Measures (p : Pattern) (n : Nat) : Prop := ∀ w, p.Spells w → w.length = n

lemma Measures.taken {n : Nat} (h : p.Measures n) {r s : Run} (hs : s ∈ p.ways r) :
    s.taken = r.taken + n := by
  obtain ⟨w, hw, -, htaken⟩ := covers_of_mem_ways hs
  rw [htaken, h w hw]

lemma measures_set (s : CharSet) : (set s).Measures 1 := by
  rintro w ⟨c, -, rfl⟩
  rfl

lemma Measures.seq {m n : Nat} (hp : p.Measures m) (hq : q.Measures n) :
    (seq p q).Measures (m + n) := by
  rintro w ⟨u, v, hu, hv, rfl⟩
  rw [List.length_append, hp u hu, hq v hv]

lemma ascends_of_measures {n : Nat} (h : p.Measures n) : p.Ascends := fun _ =>
  List.pairwise_of_forall_mem_list fun _ hs _ ht =>
    Nat.le_of_eq ((h.taken hs).trans (h.taken ht).symm)

lemma measures_of_isRigid (h : p.isRigid = true) : ∃ n, p.Measures n := by
  induction p with
  | set s => exact ⟨1, measures_set s⟩
  | seq p q ihp ihq =>
    simp only [isRigid, Bool.and_eq_true] at h
    obtain ⟨m, hm⟩ := ihp h.1
    obtain ⟨n, hn⟩ := ihq h.2
    exact ⟨m + n, hm.seq hn⟩
  | rep p min max greedy =>
    cases p with
    | set s =>
      simp only [isRigid, Bool.and_eq_true, beq_iff_eq] at h
      obtain ⟨rfl, rfl⟩ := h
      refine ⟨min, fun w hw => ?_⟩
      obtain ⟨-, hmin, hmax⟩ := spells_rep_set.1 hw
      have := hmax min rfl
      omega
    | _ => cases h
  | _ => cases h

lemma shortest_of_isRigid (h : p.isRigid = true) : p.Shortest := by
  obtain ⟨n, hn⟩ := measures_of_isRigid h
  exact (ascends_of_measures hn).shortest

/-- A pattern that always takes as much keeps the order of the ways before it. -/
lemma Ascends.seq {n : Nat} (hp : p.Ascends) (hq : q.Measures n) : (seq p q).Ascends := by
  intro r
  refine List.pairwise_flatMap.2 ⟨fun s _ => ascends_of_measures hq s, (hp r).imp ?_⟩
  intro s t hst a ha b hb
  rw [hq.taken ha, hq.taken hb]
  exact Nat.add_le_add_right hst n

lemma Ascends.after_set (hp : p.Ascends) (s : CharSet) : (Pattern.seq (set s) p).Ascends := by
  intro r
  show (((r.take? s).toList).flatMap p.ways).Pairwise _
  rcases r.take? s with _ | r'
  · exact .nil
  · simpa using hp r'

/-- A lazy loop over a set takes one character more with each way. -/
lemma ascends_lazy (s : CharSet) (max : Option Nat) : (rep (set s) 0 max false).Ascends := by
  have hgrow : ∀ n r, ∀ t ∈ upTo (set s).ways false n r, r.taken ≤ t.taken := fun n r =>
    upTo_induction (P := fun r t => r.taken ≤ t.taken) (fun _ => Nat.le_refl _) Nat.le_trans
      (fun _ _ ht => by rw [(measures_set s).taken ht]; exact Nat.le_succ _) false n r
  have hupTo : ∀ n r, (upTo (set s).ways false n r).Pairwise fun t u => t.taken ≤ u.taken := by
    intro n
    induction n with
    | zero => exact fun r => List.pairwise_singleton _ _
    | succ n ih =>
      intro r
      refine List.pairwise_cons.2 ⟨fun t ht => ?_, ?_⟩
      · obtain ⟨u, hu, ht⟩ := List.mem_flatMap.1 ht
        have := hgrow n u t ht
        rw [(measures_set s).taken hu] at this
        omega
      · show (((r.take? s).toList).flatMap (upTo (set s).ways false n)).Pairwise _
        rcases r.take? s with _ | r'
        · exact .nil
        · simpa using ih r'
  intro r
  have hways : (rep (set s) 0 max false).ways r =
      upTo (set s).ways false (max.elim r.place.rest.length (· - 0)) r := by
    simp [ways, turns]
  rw [hways]
  exact hupTo _ r

end Pattern

end ScanTree
