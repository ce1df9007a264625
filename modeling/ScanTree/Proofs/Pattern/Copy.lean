import Mathlib.Data.List.Basic
import ScanTree.Proofs.Pattern.Ways

/-!
Copies of a pattern inside a larger one.

There its groups have other numbers and its choices longer addresses. Neither decides where a
search goes: the search for the copy finds what the search for the pattern on its own does, and
leaves the choices of the rest of the larger pattern alone.
-/

namespace ScanTree

namespace Pattern

def renumber (f : Nat → Nat) : Pattern → Pattern
  | empty => empty
  | set s => set s
  | look l => look l
  | seq p q => seq (p.renumber f) (q.renumber f)
  | alt p q => alt (p.renumber f) (q.renumber f)
  | group i p => group (f i) (p.renumber f)
  | rep p min max greedy => rep (p.renumber f) min max greedy

def groupNumbers : Pattern → List Nat
  | empty | set _ | look _ => []
  | seq p q | alt p q => p.groupNumbers ++ q.groupNumbers
  | group i p => i :: p.groupNumbers
  | rep p .. => p.groupNumbers

variable (f : Nat → Nat)

@[simp] lemma proper?_renumber (p : Pattern) : (p.renumber f).proper? = p.proper? := by
  induction p <;> simp_all [renumber, proper?]

@[simp] lemma isIdle_renumber (p : Pattern) : (p.renumber f).isIdle = p.isIdle := by
  induction p <;> simp_all [renumber, isIdle]

end Pattern

/-- The run of a copy: its groups have other numbers, and it has been in `outer` before. -/
def Run.copy (f : Nat → Nat) (outer : List Nat) (r : Run) : Run :=
  { r with groups := r.groups.map f ++ outer }

section Copies

variable {f : Nat → Nat} {outer : List Nat}

@[simp] lemma Run.place_copy (r : Run) : (r.copy f outer).place = r.place := rfl

@[simp] lemma Run.taken_copy (r : Run) : (r.copy f outer).taken = r.taken := rfl

lemma Run.take?_copy (cs : CharSet) (r : Run) :
    (r.copy f outer).take? cs = (r.take? cs).map (Run.copy f outer) :=
  r.take?_regroup cs fun g => g.map f ++ outer

/-- Under `base` stand the choices of the copy, and elsewhere those from before it. -/
structure Tried.Copies (base : Address) (start t t' : Tried) : Prop where
  own : ∀ a n, t'.has (a ++ base) n = t.has a n
  other : ∀ b n, ¬ base <:+ b → t'.has b n = start.has b n

lemma Tried.Copies.add {base : Address} {start t t' : Tried} (h : Tried.Copies base start t t')
    (a : Address) (n : Nat) : Tried.Copies base start (t.add a n) (t'.add (a ++ base) n) := by
  refine ⟨fun b m => ?_, fun b m hb => ?_⟩
  · simp only [Tried.has_add, h.own, List.append_cancel_right_eq]
  · have hne : b ≠ a ++ base := by
      rintro rfl
      exact hb (List.suffix_append a base)
    simp [Tried.has_add, h.other b m hb, hne]

variable (f outer) (P : Run → Prop) (base : Address) (start : Tried)

def Finding.Copies : Finding → Finding → Prop
  | .found r, o => P r ∧ o = .found (r.copy f outer)
  | .failed t, o => ∃ t', o = .failed t' ∧ Tried.Copies base start t t'

/-- From runs with the property `P`, which they keep, two searches come to the same ends. -/
def Search.Copies (s s' : Search) : Prop :=
  ∀ r t t', P r → Tried.Copies base start t t' →
    (s r t).Copies f outer P base start (s' (r.copy f outer) t')

variable {f outer P base start}

lemma Finding.Copies.orElse {o o' : Finding} {g g' : Tried → Finding}
    (h : o.Copies f outer P base start o')
    (hg : ∀ t t', Tried.Copies base start t t' → (g t).Copies f outer P base start (g' t')) :
    (o.orElse g).Copies f outer P base start (o'.orElse g') := by
  rcases o with r | t
  · obtain ⟨hr, rfl⟩ := h
    exact ⟨hr, rfl⟩
  · obtain ⟨t', rfl, ht⟩ := h
    exact hg t t' ht

namespace Search.Copies

variable {first first' second second' next next' : Search}

lemma choose (h₁ : Search.Copies f outer P base start first first')
    (h₂ : Search.Copies f outer P base start second second') (a : Address) :
    Search.Copies f outer P base start (Search.choose a first second)
      (Search.choose (a ++ base) first' second') := by
  intro r t t' hr ht
  unfold Search.choose
  rw [Run.taken_copy, ht.own]
  split_ifs
  · exact ⟨t', rfl, ht⟩
  · exact (h₁ r _ _ hr (ht.add a r.taken)).orElse fun u u' hu => h₂ r u u' hr hu

/-- Of two searches either may be preferred. -/
lemma choose_either (h₁ : Search.Copies f outer P base start first first')
    (h₂ : Search.Copies f outer P base start second second') (a : Address) (greedy : Bool) :
    Search.Copies f outer P base start
      (if greedy then Search.choose a first second else Search.choose a second first)
      (if greedy then Search.choose (a ++ base) first' second'
        else Search.choose (a ++ base) second' first') := by
  cases greedy
  · exact h₂.choose h₁ a
  · exact h₁.choose h₂ a

lemma fromAny (h : Search.Copies f outer P base start next next') {rs : List Run}
    (hrs : ∀ r ∈ rs, P r) {t t' : Tried} (ht : Tried.Copies base start t t') :
    (Search.fromAny next rs t).Copies f outer P base start
      (Search.fromAny next' (rs.map (Run.copy f outer)) t') := by
  induction rs generalizing t t' with
  | nil => exact ⟨t', rfl, ht⟩
  | cons r rs ih =>
    exact (h r t t' (hrs r List.mem_cons_self) ht).orElse fun u u' hu =>
      ih (fun x hx => hrs x (List.mem_cons_of_mem _ hx)) hu

variable {turn turn' : Nat → Search → Search} {choice choice' : Nat → Search → Search → Search}

lemma times (hturn : ∀ i s s', Search.Copies f outer P base start s s' →
      Search.Copies f outer P base start (turn i s) (turn' i s'))
    (h : Search.Copies f outer P base start next next') (first n : Nat) :
    Search.Copies f outer P base start (Search.times turn first n next)
      (Search.times turn' first n next') := by
  induction n generalizing first with
  | zero => exact h
  | succ n ih => exact hturn first _ _ (ih (first + 1))

lemma atMost (hturn : ∀ i s s', Search.Copies f outer P base start s s' →
      Search.Copies f outer P base start (turn i s) (turn' i s'))
    (hchoice : ∀ i s s' u u', Search.Copies f outer P base start s s' →
      Search.Copies f outer P base start u u' →
      Search.Copies f outer P base start (choice i s u) (choice' i s' u'))
    (h : Search.Copies f outer P base start next next') (first n : Nat) :
    Search.Copies f outer P base start (Search.atMost turn choice first n next)
      (Search.atMost turn' choice' first n next') := by
  induction n generalizing first with
  | zero => exact h
  | succ n ih => exact hchoice first _ _ _ _ (hturn first _ _ (ih (first + 1))) h

lemma many {turn turn' : Search → Search} {choice choice' : Search → Search → Search}
    (hturn : ∀ s s', Search.Copies f outer P base start s s' →
      Search.Copies f outer P base start (turn s) (turn' s'))
    (hchoice : ∀ s s' u u', Search.Copies f outer P base start s s' →
      Search.Copies f outer P base start u u' →
      Search.Copies f outer P base start (choice s u) (choice' s' u'))
    (h : Search.Copies f outer P base start next next') (n : Nat) :
    Search.Copies f outer P base start (Search.many turn choice next n)
      (Search.many turn' choice' next' n) := by
  induction n with
  | zero => exact fun r t t' _ ht => ⟨t', rfl, ht⟩
  | succ n ih => exact hchoice _ _ _ _ (hturn _ _ ih) h

variable (htake : ∀ cs r q, P r → r.take? cs = some q → P q)

include htake

/-- A greedy loop over a set has the same runs and makes the same choices. -/
lemma stretch (cs : CharSet) (a : Address) (groups : List Nat) (rest : List Char)
    (before : Option Char) (taken : Nat) (shorter : List Run) {t t' : Tried}
    (hr : P ⟨⟨before, rest⟩, taken, groups⟩) (hshorter : ∀ r ∈ shorter, P r)
    (ht : Tried.Copies base start t t') :
    ∃ runs u u', Search.stretch cs a groups before taken shorter rest t = (runs, u) ∧
      Search.stretch cs (a ++ base) (groups.map f ++ outer) before taken
        (shorter.map (Run.copy f outer)) rest t' = (runs.map (Run.copy f outer), u') ∧
      (∀ r ∈ runs, P r) ∧ Tried.Copies base start u u' := by
  have hruns : ∀ r ∈ (⟨⟨before, rest⟩, taken, groups⟩ : Run) :: shorter, P r := by
    simpa using ⟨hr, hshorter⟩
  induction rest generalizing before taken shorter t t' with
  | nil =>
    unfold Search.stretch
    rw [ht.own]
    split_ifs
    · exact ⟨shorter, t, t', rfl, rfl, hshorter, ht⟩
    · exact ⟨_, _, _, rfl, rfl, hruns, ht.add a taken⟩
  | cons c rest ih =>
    unfold Search.stretch
    rw [ht.own]
    split_ifs with hhas hc
    · exact ⟨shorter, t, t', rfl, rfl, hshorter, ht⟩
    · have hnext := htake cs _ ⟨⟨some c, rest⟩, taken + 1, groups⟩ hr (by simp [Run.take?, hc])
      exact ih (some c) (taken + 1) _ hnext hruns (ht.add a taken)
        (by simpa using ⟨hnext, hr, hshorter⟩)
    · exact ⟨_, _, _, rfl, rfl, hruns, ht.add a taken⟩

lemma creep (h : Search.Copies f outer P base start next next') (cs : CharSet) (a : Address)
    (groups : List Nat) (rest : List Char) (before : Option Char) (taken : Nat) {t t' : Tried}
    (hr : P ⟨⟨before, rest⟩, taken, groups⟩) (ht : Tried.Copies base start t t') :
    (Search.creep cs a groups next before taken rest t).Copies f outer P base start
      (Search.creep cs (a ++ base) (groups.map f ++ outer) next' before taken rest t') := by
  induction rest generalizing before taken t t' with
  | nil =>
    unfold Search.creep
    rw [ht.own]
    split_ifs
    · exact ⟨t', rfl, ht⟩
    · exact h _ _ _ hr (ht.add a taken)
  | cons c rest ih =>
    unfold Search.creep
    rw [ht.own]
    split_ifs with hhas hc
    · exact ⟨t', rfl, ht⟩
    · exact (h _ _ _ hr (ht.add a taken)).orElse fun u u' hu =>
        ih (some c) (taken + 1) (htake cs _ _ hr (by simp [Run.take?, hc])) hu
    · exact (h _ _ _ hr (ht.add a taken)).orElse fun u u' hu => ⟨u', rfl, hu⟩

lemma spell (h : Search.Copies f outer P base start next next') (cs : CharSet) (a : Address)
    (greedy : Bool) :
    Search.Copies f outer P base start (Search.spell cs a greedy next)
      (Search.spell cs (a ++ base) greedy next') := by
  intro r t t' hr ht
  cases greedy
  · exact creep htake h cs a r.groups r.place.rest r.place.before r.taken hr ht
  · obtain ⟨runs, u, u', hruns, hcopy, hP, hu⟩ : ∃ runs u u',
        Search.stretch cs a r.groups r.place.before r.taken [] r.place.rest t = (runs, u) ∧
        Search.stretch cs (a ++ base) (r.copy f outer).groups (r.copy f outer).place.before
          (r.copy f outer).taken [] (r.copy f outer).place.rest t' =
            (runs.map (Run.copy f outer), u') ∧
        (∀ r ∈ runs, P r) ∧ Tried.Copies base start u u' :=
      stretch htake cs a r.groups r.place.rest r.place.before r.taken [] hr (by simp) ht
    simp only [Search.spell, if_true, hruns, hcopy]
    exact h.fromAny hP hu

end Search.Copies

namespace Pattern

def rounds (p : Pattern) (a : Address) (greedy : Bool) (next : Search) : Search :=
  match p with
  | set cs => Search.spell cs (0 :: a) greedy next
  | p => fun r t =>
    Search.many (p.search (1 :: a))
      (fun more stop => if greedy then Search.choose (0 :: a) more stop
        else Search.choose (0 :: a) stop more) next (r.place.rest.length + 2) r t

lemma search_rep (p : Pattern) (min : Nat) (max : Option Nat) (greedy : Bool) (a : Address)
    (next : Search) (r : Run) (t : Tried) :
    (rep p min max greedy).search a next r t =
      let turn (i : Nat) : Search → Search := p.search ((2 * i + 1) :: a)
      let choice (i : Nat) (more stop : Search) : Search :=
        if greedy then Search.choose ((2 * i) :: a) more stop
        else Search.choose ((2 * i) :: a) stop more
      match min, max with
      | min, some max =>
        Search.times turn 0 min (Search.atMost turn choice min (max - min) next) r t
      | 0, none =>
        if p.isProper then p.rounds a greedy next r t
        else choice 1 (turn 0 (p.rounds a greedy next)) next r t
      | min + 1, none => Search.times turn 1 min (turn 0 (p.rounds a greedy next)) r t := by
  rcases max with _ | max
  · rcases min with _ | min <;> cases p <;> rfl
  · rfl

lemma rounds_copies (htake : ∀ cs r q, P r → r.take? cs = some q → P q) {p : Pattern}
    (hbody : ∀ (a : Address) (s s' : Search), Search.Copies f outer P base start s s' →
      Search.Copies f outer P base start (p.search a s) ((p.renumber f).search (a ++ base) s'))
    {next next' : Search} (h : Search.Copies f outer P base start next next') (a : Address)
    (greedy : Bool) :
    Search.Copies f outer P base start (p.rounds a greedy next)
      ((p.renumber f).rounds (a ++ base) greedy next') := by
  have hmany : Search.Copies f outer P base start
      (fun r t => Search.many (p.search (1 :: a))
        (fun more stop => if greedy then Search.choose (0 :: a) more stop
          else Search.choose (0 :: a) stop more) next (r.place.rest.length + 2) r t)
      (fun r t => Search.many ((p.renumber f).search (1 :: (a ++ base)))
        (fun more stop => if greedy then Search.choose (0 :: (a ++ base)) more stop
          else Search.choose (0 :: (a ++ base)) stop more) next'
          (r.place.rest.length + 2) r t) :=
    fun r t t' hr ht => Search.Copies.many (hbody (1 :: a))
      (fun _ _ _ _ hs hu => hs.choose_either hu (0 :: a) greedy) h _ r t t' hr ht
  cases p with
  | set cs => exact h.spell htake cs (0 :: a) greedy
  | _ => exact hmany

lemma rep_copies (htake : ∀ cs r q, P r → r.take? cs = some q → P q) {p : Pattern}
    (hbody : ∀ (a : Address) (s s' : Search), Search.Copies f outer P base start s s' →
      Search.Copies f outer P base start (p.search a s) ((p.renumber f).search (a ++ base) s'))
    {next next' : Search} (h : Search.Copies f outer P base start next next') (a : Address)
    (min : Nat) (max : Option Nat) (greedy : Bool) :
    Search.Copies f outer P base start ((rep p min max greedy).search a next)
      (((rep p min max greedy).renumber f).search (a ++ base) next') := by
  have hturn : ∀ (i : Nat) (s s' : Search), Search.Copies f outer P base start s s' →
      Search.Copies f outer P base start (p.search ((2 * i + 1) :: a) s)
        ((p.renumber f).search ((2 * i + 1) :: (a ++ base)) s') :=
    fun i _ _ hs => hbody ((2 * i + 1) :: a) _ _ hs
  have hchoice : ∀ (i : Nat) (s s' u u' : Search), Search.Copies f outer P base start s s' →
      Search.Copies f outer P base start u u' →
      Search.Copies f outer P base start
        (if greedy then Search.choose ((2 * i) :: a) s u else Search.choose ((2 * i) :: a) u s)
        (if greedy then Search.choose ((2 * i) :: (a ++ base)) s' u'
          else Search.choose ((2 * i) :: (a ++ base)) u' s') :=
    fun i _ _ _ _ hs hu => hs.choose_either hu ((2 * i) :: a) greedy
  have hrounds := rounds_copies htake hbody h a greedy
  intro r t t' hr ht
  rw [renumber, search_rep, search_rep]
  rcases max with _ | max
  · rcases min with _ | min
    · have hsame : (p.renumber f).isProper = p.isProper := by simp [isProper]
      by_cases hproper : p.isProper = true
      · simp only [hsame, hproper, if_true]
        exact hrounds r t t' hr ht
      · simp only [hsame, hproper, Bool.false_eq_true, if_false]
        exact hchoice 1 _ _ _ _ (hturn 0 _ _ hrounds) h r t t' hr ht
    · exact Search.Copies.times hturn (hturn 0 _ _ hrounds) 1 min r t t' hr ht
  · exact Search.Copies.times hturn (Search.Copies.atMost hturn hchoice h min (max - min)) 0 min
      r t t' hr ht

/-- **Copies**: the search for a copy comes to the same end as that for the pattern. -/
theorem search_copies (htake : ∀ cs r q, P r → r.take? cs = some q → P q) (p : Pattern)
    (henter : ∀ i ∈ p.groupNumbers, ∀ r, P r → P (r.enter i)) (a : Address) {next next' : Search}
    (h : Search.Copies f outer P base start next next') :
    Search.Copies f outer P base start (p.search a next)
      ((p.renumber f).search (a ++ base) next') := by
  induction p generalizing a next next' with
  | empty => exact h
  | set cs =>
    intro r t t' hr ht
    simp only [search, renumber, Run.take?_copy]
    rcases hq : r.take? cs with _ | q
    · exact ⟨t', rfl, ht⟩
    · exact h q t t' (htake cs r q hr hq) ht
  | look l =>
    intro r t t' hr ht
    by_cases hl : l.holds r.place = true
    · simpa [search, renumber, hl] using h r t t' hr ht
    · simp only [search, renumber, Run.place_copy, hl]
      exact ⟨t', rfl, ht⟩
  | seq p q ihp ihq =>
    have hp := fun i hi => henter i (List.mem_append_left _ hi)
    have hq := fun i hi => henter i (List.mem_append_right _ hi)
    exact ihp hp (0 :: a) (ihq hq (1 :: a) h)
  | alt p q ihp ihq =>
    have hp := fun i hi => henter i (List.mem_append_left _ hi)
    have hq := fun i hi => henter i (List.mem_append_right _ hi)
    exact (ihp hp (0 :: a) h).choose (ihq hq (1 :: a) h) a
  | group i p ih =>
    have hp := fun j hj => henter j (List.mem_cons_of_mem _ hj)
    exact fun r t t' hr ht => ih hp a h _ t t' (henter i List.mem_cons_self r hr) ht
  | rep p min max greedy ih =>
    exact rep_copies htake (fun b _ _ hs => ih henter b hs) h a min max greedy

end Pattern

end Copies

namespace Pattern

/-- What taking characters and entering groups keep, a match keeps. -/
lemma match?_induction {P : Run → Prop} {p : Pattern} {place : Place} {stop : Run}
    (h : p.match? place = some stop) (hstart : P (.start place))
    (htake : ∀ cs r q, P r → r.take? cs = some q → P q)
    (henter : ∀ i ∈ p.groupNumbers, ∀ r, P r → P (r.enter i)) : P stop := by
  have hnext : Search.Copies id [] P [] {} (fun r _ => .found r) fun r _ => .found r :=
    fun r _ _ hr _ => ⟨hr, rfl⟩
  have hsame : Tried.Copies [] {} {} {} := ⟨fun a n => by simp, fun b n _ => rfl⟩
  have key := p.search_copies htake henter [] hnext (.start place) {} {} hstart hsame
  unfold match? at h
  rcases hs : p.search [] (fun r _ => .found r) (.start place) {} with r | t
  · rw [hs] at key h
    obtain rfl : r = stop := Option.some.inj h
    exact key.1
  · rw [hs] at h
    cases h

lemma on_of_match? {p : Pattern} {place : Place} {stop : Run} (h : p.match? place = some stop) :
    stop.On place :=
  match?_induction (P := fun r => r.On place) h (Run.on_start place)
    (fun _ _ _ hr hq => hr.take? hq)
    fun i _ _ hr => hr.enter i

end Pattern

end ScanTree
