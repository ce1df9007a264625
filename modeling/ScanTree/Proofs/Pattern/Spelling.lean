import Mathlib.Algebra.BigOperators.Group.List.Basic
import Mathlib.Algebra.GroupWithZero.Nat
import ScanTree.Proofs.Pattern.FirstWay

/-!
The texts that a pattern spells, and the first way of patterns that need no second try.

What a match takes is always spelled by the pattern. A pattern that can neither begin with the next
character nor take nothing has no match.
-/

namespace ScanTree.Pattern

/-- Whether a pattern spells a text, whatever stands around it. -/
def Spells : Pattern → List Char → Prop
  | empty, w => w = []
  | look _, w => w = []
  | set s, w => ∃ c, s.contains c = true ∧ w = [c]
  | seq p q, w => ∃ u v, p.Spells u ∧ q.Spells v ∧ w = u ++ v
  | alt p q, w => p.Spells w ∨ q.Spells w
  | group _ p, w => p.Spells w
  | rep p min max _, w =>
    ∃ ws : List (List Char), (∀ u ∈ ws, p.Spells u) ∧ min ≤ ws.length ∧
      (∀ m ∈ max, ws.length ≤ min ∨ ws.length ≤ m) ∧ w = ws.flatten

def nullable : Pattern → Bool
  | empty | look _ => true
  | set _ => false
  | seq p q => p.nullable && q.nullable
  | alt p q => p.nullable || q.nullable
  | group _ p => p.nullable
  | rep p min _ _ => min == 0 || p.nullable

def starts (c : Char) : Pattern → Bool
  | empty | look _ => false
  | set s => s.contains c
  | seq p q => p.starts c || (p.nullable && q.starts c)
  | alt p q => p.starts c || q.starts c
  | group _ p => p.starts c
  | rep p .. => p.starts c

/-- Whether a pattern may match before the given next character, or at the end of the text. -/
def opens (p : Pattern) (next : Option Char) : Bool := p.nullable || next.any fun c => p.starts c

lemma spells_seq {p q : Pattern} {u v : List Char} (hu : p.Spells u) (hv : q.Spells v) :
    (seq p q).Spells (u ++ v) := ⟨u, v, hu, hv, rfl⟩

lemma spells_rep_set {s : CharSet} {min : Nat} {max : Option Nat} {greedy : Bool} {w : List Char} :
    (rep (set s) min max greedy).Spells w ↔ (∀ c ∈ w, s.contains c = true) ∧ min ≤ w.length ∧
      ∀ m ∈ max, w.length ≤ min ∨ w.length ≤ m := by
  constructor
  · rintro ⟨ws, hws, hmin, hmax, rfl⟩
    have hsingle : ∀ u ∈ ws, u.length = 1 := by
      intro u hu
      obtain ⟨c, -, rfl⟩ := hws u hu
      rfl
    refine ⟨?_, ?_⟩
    · intro c hc
      obtain ⟨u, hu, hc⟩ := List.mem_flatten.1 hc
      obtain ⟨d, hd, rfl⟩ := hws u hu
      obtain rfl := List.mem_singleton.1 hc
      exact hd
    · have hlen : ws.map List.length = List.replicate ws.length 1 :=
        List.eq_replicate_iff.2 ⟨by simp, by simpa using hsingle⟩
      have hflat : ws.flatten.length = ws.length := by rw [List.length_flatten, hlen]; simp
      rw [hflat]
      exact ⟨hmin, hmax⟩
  · rintro ⟨hw, hmin, hmax⟩
    refine ⟨w.map fun c => [c], ?_, by simpa using hmin, by simpa using hmax, ?_⟩
    · intro u hu
      obtain ⟨c, hc, rfl⟩ := List.mem_map.1 hu
      exact ⟨c, hw c hc, rfl⟩
    · clear hw hmin hmax
      induction w with
      | nil => rfl
      | cons c w ih => simpa using ih

lemma nullable_of_spells {p : Pattern} (h : p.Spells []) : p.nullable = true := by
  induction p with
  | empty => rfl
  | look l => rfl
  | set s =>
    obtain ⟨c, -, hc⟩ := h
    cases hc
  | seq p q ihp ihq =>
    obtain ⟨u, v, hu, hv, huv⟩ := h
    obtain ⟨rfl, rfl⟩ := List.append_eq_nil_iff.1 huv.symm
    simp [nullable, ihp hu, ihq hv]
  | alt p q ihp ihq =>
    rcases h with h | h
    · simp [nullable, ihp h]
    · simp [nullable, ihq h]
  | group i p ih => exact ih h
  | rep p min max greedy ih =>
    obtain ⟨ws, hws, hmin, -, hw⟩ := h
    rcases ws with _ | ⟨u, us⟩
    · have : min = 0 := by simpa using hmin
      simp [nullable, this]
    · have hu : u = [] := List.flatten_eq_nil_iff.1 hw.symm u List.mem_cons_self
      have := ih (hu ▸ hws u List.mem_cons_self)
      simp [nullable, this]

lemma starts_of_spells {p : Pattern} {c : Char} {w : List Char} (h : p.Spells (c :: w)) :
    p.starts c = true := by
  induction p generalizing w with
  | empty => cases h
  | look l => cases h
  | set s =>
    obtain ⟨d, hd, hw⟩ := h
    obtain ⟨rfl, -⟩ := List.cons.inj hw
    exact hd
  | seq p q ihp ihq =>
    obtain ⟨u, v, hu, hv, huv⟩ := h
    rcases u with _ | ⟨d, u⟩
    · obtain rfl : c :: w = v := huv
      simp [starts, nullable_of_spells hu, ihq hv]
    · obtain ⟨rfl, -⟩ := List.cons.inj huv
      simp [starts, ihp hu]
  | alt p q ihp ihq =>
    rcases h with h | h
    · simp [starts, ihp h]
    · simp [starts, ihq h]
  | group i p ih => exact ih h
  | rep p min max greedy ih =>
    obtain ⟨ws, hws, -, -, hw⟩ := h
    induction ws with
    | nil => cases hw
    | cons u us ihu =>
      rcases u with _ | ⟨d, u⟩
      · exact ihu (fun x hx => hws x (List.mem_cons_of_mem _ hx)) hw
      · obtain ⟨rfl, -⟩ := List.cons.inj hw
        exact ih (hws _ List.mem_cons_self)

/-! ### What a way spells -/

/-- The text between two runs is spelled by a pattern. -/
def Covers (p : Pattern) (r r' : Run) : Prop :=
  ∃ w, p.Spells w ∧ r.place.rest = w ++ r'.place.rest ∧ r'.taken = r.taken + w.length

lemma covers_turns {p : Pattern} (h : ∀ {r r'}, r' ∈ p.ways r → p.Covers r r') {n : Nat}
    {r r' : Run} (hr : r' ∈ turns p.ways n r) :
    ∃ ws : List (List Char), (∀ u ∈ ws, p.Spells u) ∧ ws.length = n ∧
      r.place.rest = ws.flatten ++ r'.place.rest ∧ r'.taken = r.taken + ws.flatten.length := by
  induction n generalizing r with
  | zero =>
    obtain rfl := List.mem_singleton.1 hr
    exact ⟨[], by simp⟩
  | succ n ih =>
    obtain ⟨s, hs, hr⟩ := List.mem_flatMap.1 hr
    obtain ⟨w, hw, hrest, htaken⟩ := h hs
    obtain ⟨ws, hws, hlen, hrest', htaken'⟩ := ih hr
    refine ⟨w :: ws, by simpa using ⟨hw, hws⟩, by simp [hlen], ?_, ?_⟩
    · rw [hrest, hrest', List.flatten_cons, List.append_assoc]
    · rw [htaken', htaken, List.flatten_cons, List.length_append]
      omega

lemma mem_turns_of_mem_upTo {p : Pattern} {greedy : Bool} {n : Nat} {r r' : Run}
    (hr : r' ∈ upTo p.ways greedy n r) :
    ∃ k ≤ n, r' ∈ turns p.ways k r := by
  induction n generalizing r with
  | zero => exact ⟨0, Nat.le_refl 0, hr⟩
  | succ n ih =>
    rcases mem_upTo_succ.1 hr with rfl | ⟨s, hs, hr⟩
    · exact ⟨0, Nat.zero_le _, List.mem_singleton.2 rfl⟩
    · obtain ⟨k, hle, hk⟩ := ih hr
      exact ⟨k + 1, by omega, List.mem_flatMap.2 ⟨s, hs, hk⟩⟩

/-- **Ways spell**: what a way takes is a text of the pattern. -/
theorem covers_of_mem_ways {p : Pattern} {r r' : Run} (h : r' ∈ p.ways r) : p.Covers r r' := by
  induction p generalizing r r' with
  | empty =>
    obtain rfl := List.mem_singleton.1 h
    exact ⟨[], rfl, by simp⟩
  | set s =>
    obtain ⟨c, cs, hrest, hc, rfl⟩ := Run.take?_eq_some_iff.1 (Option.mem_toList.1 h)
    exact ⟨[c], ⟨c, hc, rfl⟩, hrest, rfl⟩
  | look l =>
    unfold ways at h
    split_ifs at h
    · obtain rfl := List.mem_singleton.1 h
      exact ⟨[], rfl, by simp⟩
    · cases h
  | seq p q ihp ihq =>
    obtain ⟨s, hs, hr⟩ := List.mem_flatMap.1 h
    obtain ⟨u, hu, hrest, htaken⟩ := ihp hs
    obtain ⟨v, hv, hrest', htaken'⟩ := ihq hr
    refine ⟨u ++ v, spells_seq hu hv, ?_, ?_⟩
    · rw [hrest, hrest', List.append_assoc]
    · rw [htaken', htaken, List.length_append]
      omega
  | alt p q ihp ihq =>
    rcases List.mem_append.1 h with h | h
    · obtain ⟨w, hw, hrest⟩ := ihp h
      exact ⟨w, .inl hw, hrest⟩
    · obtain ⟨w, hw, hrest⟩ := ihq h
      exact ⟨w, .inr hw, hrest⟩
  | group i p ih => exact ih (r := r.enter i) h
  | rep p min max greedy ih =>
    obtain ⟨s, hs, hr⟩ := List.mem_flatMap.1 h
    obtain ⟨us, hus, hlen, hrest, htaken⟩ := covers_turns ih hs
    obtain ⟨k, hk, hr⟩ := mem_turns_of_mem_upTo hr
    obtain ⟨vs, hvs, hlen', hrest', htaken'⟩ := covers_turns ih hr
    have hmax : ∀ m ∈ max, (us ++ vs).length ≤ min ∨ (us ++ vs).length ≤ m := by
      rintro m rfl
      simp only [Option.elim_some] at hk
      rw [List.length_append, hlen, hlen']
      omega
    refine ⟨(us ++ vs).flatten, ⟨us ++ vs, ?_, by simp [hlen], hmax, rfl⟩, ?_, ?_⟩
    · intro u hu
      rcases List.mem_append.1 hu with hu | hu
      · exact hus u hu
      · exact hvs u hu
    · rw [hrest, hrest', List.flatten_append, List.append_assoc]
    · rw [htaken', htaken, List.flatten_append, List.length_append]
      omega

lemma mem_ways_of_match? {p : Pattern} (hp : p.isPlain) {place : Place} {stop : Run}
    (h : p.match? place = some stop) : stop ∈ p.ways (.start place) := by
  rw [match?_eq_head? hp] at h
  exact List.mem_of_mem_head? h

lemma spells_of_match? {p : Pattern} (hp : p.isPlain) {place : Place} {stop : Run}
    (h : p.match? place = some stop) :
    stop.taken ≤ place.rest.length ∧ p.Spells (place.rest.take stop.taken) ∧
      stop.place = place.past stop.taken := by
  have hmem := mem_ways_of_match? hp h
  obtain ⟨w, hw, hrest, htaken⟩ := covers_of_mem_ways hmem
  obtain ⟨hle, hplace⟩ := on_of_mem_ways hmem (Run.on_start place)
  have hlen : stop.taken = w.length := by rw [htaken]; exact Nat.zero_add _
  have htake : place.rest.take stop.taken = w := by
    rw [hlen, show place.rest = w ++ stop.place.rest from hrest, List.take_left]
  exact ⟨hle, htake ▸ hw, hplace⟩

lemma match?_eq_none {p : Pattern} (hp : p.isPlain) {place : Place}
    (h : ∀ w rest, place.rest = w ++ rest → ¬ p.Spells w) : p.match? place = none := by
  rcases hm : p.match? place with _ | stop
  · rfl
  · obtain ⟨-, hspells, -⟩ := spells_of_match? hp hm
    exact absurd hspells (h _ _ (List.take_append_drop stop.taken place.rest).symm)

/-- The next character tells that a pattern has no match. -/
lemma match?_eq_none_of_opens {p : Pattern} (hp : p.isPlain) {place : Place}
    (h : p.opens place.rest.head? = false) : p.match? place = none := by
  refine match?_eq_none hp fun w rest hrest hw => ?_
  simp only [opens, Bool.or_eq_false_iff] at h
  rcases w with _ | ⟨c, w⟩
  · rw [nullable_of_spells hw] at h
    cases h.1
  · rw [hrest] at h
    simp [starts_of_spells hw] at h

/-! ### First ways -/

end ScanTree.Pattern

namespace ScanTree

def Run.ahead (r : Run) (n : Nat) : Run := ⟨r.place.past n, r.taken + n, r.groups⟩

lemma Place.past_past (p : Place) (m n : Nat) :
    (p.past m).past n = p.past (m + n) := by
  have htake : p.rest.take (m + n) = p.rest.take m ++ (p.rest.drop m).take n := List.take_add
  simp only [Place.past, List.drop_drop, htake, List.getLast?_append, Option.or_assoc]

@[simp] lemma Run.ahead_zero (r : Run) : r.ahead 0 = r := by simp [Run.ahead]

@[simp] lemma Run.rest_ahead (r : Run) (n : Nat) :
    (r.ahead n).place.rest = r.place.rest.drop n := rfl

lemma Run.ahead_ahead (r : Run) (m n : Nat) : (r.ahead m).ahead n = r.ahead (m + n) := by
  simp only [Run.ahead, Place.past_past, Nat.add_assoc]

lemma Run.take?_ahead {s : CharSet} {r : Run} {c : Char} {cs : List Char}
    (h : r.place.rest = c :: cs) (hc : s.contains c = true) : r.take? s = some (r.ahead 1) := by
  have hpast : r.place.past 1 = ⟨some c, cs⟩ := Place.past_succ (n := 0) h
  rw [Run.ahead, hpast]
  exact take?_eq_some_iff.2 ⟨c, cs, h, hc, rfl⟩

namespace Pattern

/-- The first way of a pattern takes `n` characters. -/
def Leads (p : Pattern) (r : Run) (n : Nat) : Prop :=
  n ≤ r.place.rest.length ∧ (p.ways r).head? = some (r.ahead n)

lemma head?_flatMap {α β : Type} {xs : List α} {f : α → List β} {x : α} {y : β}
    (hx : xs.head? = some x) (hy : (f x).head? = some y) : (xs.flatMap f).head? = some y := by
  rcases xs with _ | ⟨x', xs⟩
  · cases hx
  · obtain rfl : x' = x := by simpa using hx
    rw [List.flatMap_cons, List.head?_append, hy]
    rfl

lemma Leads.match? {p : Pattern} (hp : p.isPlain) {place : Place} {n : Nat}
    (h : p.Leads (.start place) n) : p.match? place = some ⟨place.past n, n, []⟩ := by
  rw [match?_eq_head? hp, h.2]
  simp [Run.ahead, Run.start]

lemma leads_empty (r : Run) : empty.Leads r 0 := ⟨Nat.zero_le _, by simp [ways]⟩

lemma leads_look {l : Look} {r : Run} (h : l.holds r.place = true) : (look l).Leads r 0 :=
  ⟨Nat.zero_le _, by simp [ways, h]⟩

lemma leads_set {s : CharSet} {r : Run} {c : Char} {cs : List Char} (h : r.place.rest = c :: cs)
    (hc : s.contains c = true) : (set s).Leads r 1 := by
  refine ⟨by simp [h], ?_⟩
  rw [ways, Run.take?_ahead h hc]
  rfl

lemma Leads.seq {p q : Pattern} {r : Run} {m n : Nat} (hp : p.Leads r m)
    (hq : q.Leads (r.ahead m) n) : (seq p q).Leads r (m + n) := by
  refine ⟨?_, ?_⟩
  · have := hp.1
    have := hq.1
    simp only [Run.rest_ahead, List.length_drop] at this
    omega
  · rw [← Run.ahead_ahead]
    exact head?_flatMap hp.2 hq.2

lemma Leads.alt_left {p : Pattern} {r : Run} {n : Nat} (hp : p.Leads r n) (q : Pattern) :
    (alt p q).Leads r n := by
  refine ⟨hp.1, ?_⟩
  rw [ways, List.head?_append, hp.2]
  rfl

lemma Leads.alt_right {p q : Pattern} {r : Run} {n : Nat} (hp : p.ways r = [])
    (hq : q.Leads r n) : (alt p q).Leads r n := by
  refine ⟨hq.1, ?_⟩
  rw [ways, hp]
  exact hq.2

lemma ways_eq_nil_of_opens {p : Pattern} {r : Run} (h : p.opens r.place.rest.head? = false) :
    p.ways r = [] := by
  rw [List.eq_nil_iff_forall_not_mem]
  intro r' hr'
  obtain ⟨w, hw, hrest, -⟩ := covers_of_mem_ways hr'
  simp only [opens, Bool.or_eq_false_iff] at h
  rcases w with _ | ⟨c, w⟩
  · rw [nullable_of_spells hw] at h
    cases h.1
  · rw [hrest] at h
    simp [starts_of_spells hw] at h

/-- Turns of a pattern one after the other, each the first way of its own. -/
def Chain (p : Pattern) (r : Run) : List Nat → Prop
  | [] => True
  | n :: ns => p.Leads r n ∧ p.Chain (r.ahead n) ns

lemma Chain.sum_le {p : Pattern} {r : Run} {ns : List Nat} (h : p.Chain r ns) :
    ns.sum ≤ r.place.rest.length := by
  induction ns generalizing r with
  | nil => exact Nat.zero_le _
  | cons n ns ih =>
    have hn := h.1.1
    have hns := ih h.2
    simp only [Run.rest_ahead, List.length_drop] at hns
    simp only [List.sum_cons]
    omega

lemma Chain.drop {p : Pattern} {r : Run} {ns : List Nat} (h : p.Chain r ns) (k : Nat) :
    p.Chain (r.ahead (ns.take k).sum) (ns.drop k) := by
  induction k generalizing r ns with
  | zero => simpa using h
  | succ k ih =>
    rcases ns with _ | ⟨n, ns⟩
    · exact trivial
    · have := ih h.2
      rw [Run.ahead_ahead] at this
      simpa using this

lemma Chain.head?_turns {p : Pattern} {r : Run} {ns : List Nat} (h : p.Chain r ns) :
    (turns p.ways ns.length r).head? = some (r.ahead ns.sum) := by
  induction ns generalizing r with
  | nil => simp [turns]
  | cons n ns ih =>
    rw [List.sum_cons, ← Run.ahead_ahead]
    exact head?_flatMap h.1.2 (ih h.2)

/-- A greedy loop goes on as long as it can. -/
lemma Chain.head?_upTo {p : Pattern} {r : Run} {ns : List Nat} {n : Nat} (h : p.Chain r ns)
    (hle : ns.length ≤ n) (hstop : ns.length = n ∨ p.ways (r.ahead ns.sum) = []) :
    (upTo p.ways true n r).head? = some (r.ahead ns.sum) := by
  induction ns generalizing r n with
  | nil =>
    rcases n with _ | n
    · simp [upTo]
    · have hnil : p.ways r = [] := by simpa using hstop
      simp [upTo, hnil]
  | cons m ns ih =>
    rcases n with _ | n
    · simp at hle
    · simp only [List.length_cons, Nat.add_le_add_iff_right, Nat.add_right_cancel_iff,
        List.sum_cons, ← Run.ahead_ahead] at hle hstop ⊢
      have hmore := head?_flatMap h.1.2 (ih h.2 hle hstop)
      simp only [upTo, if_true, List.head?_append, hmore]
      rfl

/-- The first way of a greedy loop takes all turns that there are, or as many as are allowed. -/
lemma Chain.leads_rep {p : Pattern} {r : Run} {ns : List Nat} {min : Nat} {max : Option Nat}
    (h : p.Chain r ns) (hmin : min ≤ ns.length) (hmax : ∀ m ∈ max, ns.length ≤ m)
    (hpos : ∀ n ∈ ns, 0 < n) (hstop : max = some ns.length ∨ p.ways (r.ahead ns.sum) = []) :
    (rep p min max true).Leads r ns.sum := by
  have hsplit : (ns.take min).sum + (ns.drop min).sum = ns.sum := by
    rw [← List.sum_append, List.take_append_drop]
  have htotal := h.sum_le
  have hahead : (r.ahead (ns.take min).sum).ahead (ns.drop min).sum = r.ahead ns.sum := by
    rw [Run.ahead_ahead, hsplit]
  have hrest := h.drop min
  have hfirst : (turns p.ways min r).head? = some (r.ahead (ns.take min).sum) := by
    have hlen : (ns.take min).length = min := by rw [List.length_take]; omega
    have hchain : p.Chain r (ns.take min) := by
      clear hlen hahead hrest hstop hmax hsplit htotal hmin hpos
      induction min generalizing r ns with
      | zero => exact trivial
      | succ k ih =>
        rcases ns with _ | ⟨n, ns⟩
        · exact trivial
        · exact ⟨h.1, ih h.2⟩
    have := hchain.head?_turns
    rwa [hlen] at this
  refine ⟨htotal, head?_flatMap hfirst ?_⟩
  rw [← hahead]
  refine hrest.head?_upTo ?_ ?_
  · rcases max with _ | m
    · have hcount : (ns.drop min).length ≤ (ns.drop min).sum :=
        List.length_le_sum_of_one_le _ fun n hn => hpos n (List.mem_of_mem_drop hn)
      simp only [Option.elim_none, Run.rest_ahead, List.length_drop] at hcount ⊢
      omega
    · have := hmax m rfl
      simp only [Option.elim_some, List.length_drop]
      omega
  · rw [hahead]
    rcases hstop with rfl | hstop
    · exact .inl (by simp)
    · exact .inr hstop

lemma chain_set {s : CharSet} {r : Run} {n : Nat} (hn : n ≤ r.place.rest.length)
    (h : ∀ c ∈ r.place.rest.take n, s.contains c = true) :
    (set s).Chain r (List.replicate n 1) := by
  induction n generalizing r with
  | zero => exact trivial
  | succ n ih =>
    rcases hr : r.place.rest with _ | ⟨c, cs⟩
    · simp [hr] at hn
    · rw [hr] at hn h
      refine ⟨leads_set hr (h c (by simp)), ih ?_ ?_⟩
      · simpa [hr] using hn
      · intro d hd
        rw [Run.rest_ahead, hr] at hd
        exact h d (by simpa using .inr hd)

/-- A greedy loop over a set takes its characters up to the first other one. -/
lemma leads_rep_set {s : CharSet} {r : Run} {w rest : List Char} {min : Nat} {max : Option Nat}
    (hrest : r.place.rest = w ++ rest) (hw : ∀ c ∈ w, s.contains c = true) (hmin : min ≤ w.length)
    (hmax : ∀ m ∈ max, w.length ≤ m)
    (hstop : max = some w.length ∨ (rest.head?.any fun c => s.contains c) = false) :
    (rep (set s) min max true).Leads r w.length := by
  have hsum : (List.replicate w.length 1).sum = w.length := by simp
  have hchain : (set s).Chain r (List.replicate w.length 1) :=
    chain_set (by simp [hrest]) (by simpa [hrest] using hw)
  have hpos : ∀ n ∈ List.replicate w.length 1, 0 < n := fun n hn => by
    rw [List.eq_of_mem_replicate hn]
    exact Nat.one_pos
  rw [← hsum]
  refine hchain.leads_rep (by simpa using hmin) (by simpa using hmax) hpos ?_
  · rcases hstop with rfl | hstop
    · exact .inl (by simp)
    · refine .inr (ways_eq_nil_of_opens ?_)
      rw [hsum, Run.rest_ahead, hrest, List.drop_left]
      simpa [opens, nullable, starts] using hstop

/-- A lazy loop tries what comes after it before each turn. -/
lemma head?_lazy {s : CharSet} {q : Pattern} {r stop : Run} {w rest : List Char} {n : Nat}
    (hrest : r.place.rest = w ++ rest) (hw : ∀ c ∈ w, s.contains c = true) (hn : w.length ≤ n)
    (hnone : ∀ k < w.length, q.ways (r.ahead k) = [])
    (hstop : (q.ways (r.ahead w.length)).head? = some stop) :
    ((upTo (set s).ways false n r).flatMap q.ways).head? = some stop := by
  induction w generalizing r n with
  | nil =>
    rw [List.length_nil, Run.ahead_zero] at hstop
    rcases n with _ | n <;> simp [upTo, List.head?_append, hstop]
  | cons c w ih =>
    obtain ⟨n, rfl⟩ := Nat.exists_eq_succ_of_ne_zero (Nat.ne_of_gt (Nat.zero_lt_of_lt hn))
    have hfirst : q.ways r = [] := by simpa using hnone 0 (by simp)
    have hone : (set s).ways r = [r.ahead 1] := by
      rw [ways, Run.take?_ahead hrest (hw c List.mem_cons_self)]
      rfl
    have hshift : ∀ k, (r.ahead 1).ahead k = r.ahead (k + 1) := fun k => by
      rw [Run.ahead_ahead, Nat.add_comm]
    have := ih (r := r.ahead 1) (n := n) (by rw [Run.rest_ahead, hrest]; rfl)
      (fun d hd => hw d (List.mem_cons_of_mem _ hd)) (Nat.le_of_succ_le_succ hn)
      (fun k hk => by rw [hshift]; exact hnone _ (Nat.succ_lt_succ hk))
      (by rw [hshift]; exact hstop)
    simpa [upTo, hone, hfirst] using this

/-- A lazy loop over a set ends where what comes after it matches first. -/
lemma leads_lazy {s : CharSet} {q : Pattern} {r : Run} {w rest : List Char} {n : Nat}
    (hrest : r.place.rest = w ++ rest) (hw : ∀ c ∈ w, s.contains c = true)
    (hnone : ∀ k < w.length, q.ways (r.ahead k) = []) (hq : q.Leads (r.ahead w.length) n) :
    (seq (rep (set s) 0 none false) q).Leads r (w.length + n) := by
  have hle := hq.1
  have hlength := congrArg List.length hrest
  rw [Run.rest_ahead, List.length_drop] at hle
  rw [List.length_append] at hlength
  refine ⟨by omega, ?_⟩
  rw [← Run.ahead_ahead]
  have hways : (rep (set s) 0 none false).ways r =
      upTo (set s).ways false r.place.rest.length r := by
    simp [ways, turns]
  rw [ways, hways]
  exact head?_lazy hrest hw (by omega) hnone hq.2

/-- Whether all texts of a pattern have one length, so that it never has a choice. -/
def isRigid : Pattern → Bool
  | set _ => true
  | seq p q => p.isRigid && q.isRigid
  | rep (set _) min max greedy => max == some min && greedy
  | _ => false

/-- A rigid pattern takes each of its texts, whatever follows. -/
lemma leads_of_isRigid {p : Pattern} (hp : p.isRigid = true) {w rest : List Char}
    (hw : p.Spells w) {r : Run} (hr : r.place.rest = w ++ rest) : p.Leads r w.length := by
  induction p generalizing w rest r with
  | empty => cases hp
  | set s =>
    obtain ⟨c, hc, rfl⟩ := hw
    exact leads_set hr hc
  | look l => cases hp
  | seq p q ihp ihq =>
    simp only [isRigid, Bool.and_eq_true] at hp
    obtain ⟨u, v, hu, hv, rfl⟩ := hw
    rw [List.length_append]
    rw [List.append_assoc] at hr
    have hrest : (r.ahead u.length).place.rest = v ++ rest := by
      rw [Run.rest_ahead, hr, List.drop_left]
    exact (ihp hp.1 hu hr).seq (ihq hp.2 hv hrest)
  | alt p q => cases hp
  | group i p => cases hp
  | rep p min max greedy =>
    cases p with
    | set s =>
      simp only [isRigid, Bool.and_eq_true, beq_iff_eq] at hp
      obtain ⟨rfl, rfl⟩ := hp
      obtain ⟨hset, hmin, hmax⟩ := spells_rep_set.1 hw
      have hlen : w.length = min := by
        have := hmax min rfl
        omega
      exact leads_rep_set hr hset hmin (fun m hm => by cases hm; omega) (.inl (by rw [hlen]))
    | _ => cases hp

end Pattern

end ScanTree
