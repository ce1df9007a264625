import Mathlib.Data.List.Basic
import ScanTree.Pattern.Search

/-!
The ways of a pattern: all runs that it allows from a run on, the preferred one first.

A way keeps to the text it started on, spells a text of the pattern, and does not depend on the
groups that the run has been in before.
-/

namespace ScanTree

def Place.past (p : Place) (n : Nat) : Place :=
  ⟨(p.rest.take n).getLast?.or p.before, p.rest.drop n⟩

@[simp] lemma Place.past_zero (p : Place) : p.past 0 = p := by simp [Place.past]

@[simp] lemma Place.rest_past (p : Place) (n : Nat) : (p.past n).rest = p.rest.drop n := rfl

lemma Place.past_succ {p : Place} {n : Nat} {c : Char} {cs : List Char}
    (h : p.rest.drop n = c :: cs) : p.past (n + 1) = ⟨some c, cs⟩ := by
  have hget : p.rest[n]? = some c := by
    have := List.head?_drop (l := p.rest) (i := n)
    rw [h] at this
    exact this.symm
  have htake : p.rest.take (n + 1) = p.rest.take n ++ [c] := by
    rw [List.take_add_one, hget]; rfl
  have hdrop : p.rest.drop (n + 1) = cs := by
    rw [← List.drop_drop, h]; rfl
  simp [Place.past, htake, hdrop]

namespace Run

def On (origin : Place) (r : Run) : Prop :=
  r.taken ≤ origin.rest.length ∧ r.place = origin.past r.taken

lemma on_start (origin : Place) : (start origin).On origin := by simp [On, start]

lemma On.enter {origin : Place} {r : Run} (h : r.On origin) (i : Nat) : (r.enter i).On origin := h

/-- Two runs on the same text that have taken as much differ in their groups only. -/
lemma On.eq_of_taken {origin : Place} {r s : Run} (hr : r.On origin) (hs : s.On origin)
    (h : r.taken = s.taken) : { r with groups := s.groups } = s := by
  obtain ⟨place, taken, groups⟩ := r
  obtain ⟨place', taken', groups'⟩ := s
  simp only at h
  subst h
  simp only [Run.mk.injEq, and_true]
  exact hr.2.trans hs.2.symm

lemma take?_eq_some_iff {s : CharSet} {r r' : Run} :
    r.take? s = some r' ↔ ∃ c cs, r.place.rest = c :: cs ∧ s.contains c = true ∧
      r' = ⟨⟨some c, cs⟩, r.taken + 1, r.groups⟩ := by
  unfold take?
  constructor
  · intro h
    rcases hr : r.place.rest with _ | ⟨c, cs⟩
    · simp [hr] at h
    · by_cases hc : s.contains c = true
      · simp only [hr, hc, if_true, Option.some.injEq] at h
        exact ⟨c, cs, rfl, hc, h.symm⟩
      · simp [hr, hc] at h
  · rintro ⟨c, cs, hr, hc, rfl⟩
    simp [hr, hc]

lemma rest_lt_of_take? {s : CharSet} {r r' : Run} (h : r.take? s = some r') :
    r'.place.rest.length < r.place.rest.length := by
  obtain ⟨c, cs, hrest, -, rfl⟩ := take?_eq_some_iff.1 h
  simp [hrest]

lemma taken_lt_of_take? {s : CharSet} {r r' : Run} (h : r.take? s = some r') :
    r.taken < r'.taken := by
  obtain ⟨c, cs, -, -, rfl⟩ := take?_eq_some_iff.1 h
  exact Nat.lt_succ_self _

lemma On.take? {origin : Place} {s : CharSet} {r r' : Run} (h : r.On origin)
    (ht : r.take? s = some r') : r'.On origin := by
  obtain ⟨c, cs, hrest, -, rfl⟩ := take?_eq_some_iff.1 ht
  obtain ⟨hle, hp⟩ := h
  have hdrop : origin.rest.drop r.taken = c :: cs := by rw [← hrest, hp]; rfl
  refine ⟨?_, (Place.past_succ hdrop).symm⟩
  have := congrArg List.length hdrop
  simp only [List.length_drop, List.length_cons] at this
  show r.taken + 1 ≤ _
  omega

def regroup (g : List Nat → List Nat) (r : Run) : Run :=
  { r with groups := g r.groups }

lemma take?_regroup (s : CharSet) (g : List Nat → List Nat) (r : Run) :
    (r.regroup g).take? s = (r.take? s).map (regroup g) := by
  unfold take? regroup
  rcases r.place.rest with _ | ⟨c, cs⟩
  · rfl
  · by_cases hc : s.contains c = true <;> simp [hc]

end Run

namespace Pattern

def turns (turn : Run → List Run) : Nat → Run → List Run
  | 0, r => [r]
  | n + 1, r => (turn r).flatMap (turns turn n)

def upTo (turn : Run → List Run) (greedy : Bool) : Nat → Run → List Run
  | 0, r => [r]
  | n + 1, r =>
    let more := (turn r).flatMap (upTo turn greedy n)
    if greedy then more ++ [r] else r :: more

/-- The runs that a pattern allows, the preferred one first. In a loop without a bound every turn
is taken to have some text, so there are no more turns than characters. -/
def ways : Pattern → Run → List Run
  | empty, r => [r]
  | set s, r => (r.take? s).toList
  | look l, r => if l.holds r.place then [r] else []
  | seq p q, r => (p.ways r).flatMap q.ways
  | alt p q, r => p.ways r ++ q.ways r
  | group i p, r => p.ways (r.enter i)
  | rep p min max greedy, r =>
    (turns p.ways min r).flatMap fun r =>
      upTo p.ways greedy (max.elim r.place.rest.length (· - min)) r

/-! ### What all ways have in common -/

section Common

variable {P : Run → Run → Prop}

lemma turns_induction (refl : ∀ r, P r r) (trans : ∀ {r s t}, P r s → P s t → P r t)
    {turn : Run → List Run} (h : ∀ r, ∀ r' ∈ turn r, P r r') (n : Nat) (r : Run) :
    ∀ r' ∈ turns turn n r, P r r' := by
  induction n generalizing r with
  | zero =>
    intro r' hr'
    obtain rfl := List.mem_singleton.1 hr'
    exact refl _
  | succ n ih =>
    intro r' hr'
    obtain ⟨s, hs, hr'⟩ := List.mem_flatMap.1 hr'
    exact trans (h r s hs) (ih s r' hr')

lemma mem_upTo_succ {turn : Run → List Run} {greedy : Bool} {n : Nat} {r r' : Run} :
    r' ∈ upTo turn greedy (n + 1) r ↔ r' = r ∨ ∃ s ∈ turn r, r' ∈ upTo turn greedy n s := by
  cases greedy <;> simp [upTo, or_comm]

lemma upTo_induction (refl : ∀ r, P r r) (trans : ∀ {r s t}, P r s → P s t → P r t)
    {turn : Run → List Run} (h : ∀ r, ∀ r' ∈ turn r, P r r') (greedy : Bool) (n : Nat) (r : Run) :
    ∀ r' ∈ upTo turn greedy n r, P r r' := by
  induction n generalizing r with
  | zero =>
    intro r' hr'
    obtain rfl := List.mem_singleton.1 hr'
    exact refl _
  | succ n ih =>
    intro r' hr'
    rcases mem_upTo_succ.1 hr' with rfl | ⟨s, hs, hr'⟩
    · exact refl _
    · exact trans (h r s hs) (ih s r' hr')

/-- What holds of taking one character and of entering a group, and goes from step to step, holds
of every way. -/
lemma ways_induction (refl : ∀ r, P r r) (trans : ∀ {r s t}, P r s → P s t → P r t)
    (take : ∀ {s r r'}, r.take? s = some r' → P r r') (enter : ∀ r i, P r (r.enter i))
    (p : Pattern) (r : Run) : ∀ r' ∈ p.ways r, P r r' := by
  induction p generalizing r with
  | empty =>
    intro r' hr'
    obtain rfl := List.mem_singleton.1 hr'
    exact refl _
  | set s =>
    intro r' hr'
    exact take (Option.mem_toList.1 hr')
  | look l =>
    intro r' hr'
    unfold ways at hr'
    split_ifs at hr'
    · obtain rfl := List.mem_singleton.1 hr'
      exact refl _
    · cases hr'
  | seq p q ihp ihq =>
    intro r' hr'
    obtain ⟨s, hs, hr'⟩ := List.mem_flatMap.1 hr'
    exact trans (ihp r s hs) (ihq s r' hr')
  | alt p q ihp ihq =>
    intro r' hr'
    rcases List.mem_append.1 hr' with h | h
    · exact ihp r r' h
    · exact ihq r r' h
  | group i p ih =>
    intro r' hr'
    exact trans (enter r i) (ih _ r' hr')
  | rep p min max greedy ih =>
    intro r' hr'
    obtain ⟨s, hs, hr'⟩ := List.mem_flatMap.1 hr'
    exact trans (turns_induction refl trans ih min r s hs)
      (upTo_induction refl trans ih greedy _ s r' hr')

end Common

lemma on_of_mem_ways {origin : Place} {p : Pattern} {r r' : Run} (h : r' ∈ p.ways r)
    (hr : r.On origin) : r'.On origin :=
  ways_induction (P := fun r r' => r.On origin → r'.On origin) (fun _ h => h)
    (fun h h' hr => h' (h hr)) (fun ht hr => hr.take? ht) (fun _ i hr => hr.enter i) p r r' h hr

/-! ### Runs with other groups -/

section Regrouped

variable {turn : Run → List Run} {g : List Nat → List Nat}

lemma turns_regroup (h : ∀ r, turn (r.regroup g) = (turn r).map (Run.regroup g)) (n : Nat)
    (r : Run) : turns turn n (r.regroup g) = (turns turn n r).map (Run.regroup g) := by
  induction n generalizing r with
  | zero => rfl
  | succ n ih =>
    rw [turns, turns, h, List.flatMap_map, List.map_flatMap]
    exact List.flatMap_congr fun x _ => ih x

lemma upTo_regroup (h : ∀ r, turn (r.regroup g) = (turn r).map (Run.regroup g)) (greedy : Bool)
    (n : Nat) (r : Run) :
    upTo turn greedy n (r.regroup g) = (upTo turn greedy n r).map (Run.regroup g) := by
  induction n generalizing r with
  | zero => rfl
  | succ n ih =>
    have hmore : (turn (r.regroup g)).flatMap (upTo turn greedy n) =
        ((turn r).flatMap (upTo turn greedy n)).map (Run.regroup g) := by
      rw [h, List.flatMap_map, List.map_flatMap]
      exact List.flatMap_congr fun x _ => ih x
    rw [upTo, upTo, hmore]
    cases greedy <;> simp

/-- The ways of a run with other groups are its ways, with their groups changed alike: the change
must go with entering a group, unless the pattern has none. -/
lemma ways_regroup {p : Pattern} (h : p.groupCount = 0 ∨ ∀ i l, g (i :: l) = i :: g l) (r : Run) :
    p.ways (r.regroup g) = (p.ways r).map (Run.regroup g) := by
  induction p generalizing r with
  | empty => rfl
  | set s =>
    simp only [ways, Run.take?_regroup]
    rcases r.take? s with _ | r' <;> rfl
  | look l =>
    have hl : l.holds (r.regroup g).place = l.holds r.place := rfl
    simp only [ways, hl]
    split_ifs <;> rfl
  | seq p q ihp ihq =>
    simp only [groupCount, Nat.add_eq_zero_iff] at h
    simp only [ways]
    rw [ihp (h.imp_left And.left), List.flatMap_map, List.map_flatMap]
    exact List.flatMap_congr fun x _ => ihq (h.imp_left And.right) x
  | alt p q ihp ihq =>
    simp only [groupCount, Nat.add_eq_zero_iff] at h
    simp only [ways, List.map_append]
    rw [ihp (h.imp_left And.left), ihq (h.imp_left And.right)]
  | group i p ih =>
    have hg : ∀ i l, g (i :: l) = i :: g l := h.resolve_left (by simp [groupCount])
    have henter : (r.regroup g).enter i = (r.enter i).regroup g := by
      simp [Run.regroup, Run.enter, hg]
    rw [ways, ways, henter]
    exact ih (.inr hg) _
  | rep p min max greedy ih =>
    have ih := ih h
    simp only [ways]
    rw [turns_regroup ih, List.flatMap_map, List.map_flatMap]
    exact List.flatMap_congr fun x _ => upTo_regroup ih greedy _ x

end Regrouped

end Pattern

end ScanTree
