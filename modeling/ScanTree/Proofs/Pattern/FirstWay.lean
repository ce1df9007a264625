import ScanTree.Proofs.Pattern.Ways

/-!
A search finds the first way of its pattern.

A search that comes to a choice again at the same place fails at once. That is right where the
choice has failed there before. So the proof carries, for each choice of a search, the places at
which it is dead, and the choices a search may have made before it are required to be dead. A
choice that is still under way is not among them: what follows it in the pattern makes other
choices. This holds of patterns in which only single characters are repeated without a bound.
-/

namespace ScanTree

variable {origin : Place} {owned : Address → Prop} {dead : Address → Nat → Prop}

/-- Whichever choices of a search have been made before are dead. -/
def Tried.Knows (t : Tried) (owned : Address → Prop) (dead : Address → Nat → Prop) : Prop :=
  ∀ b n, owned b → t.has b n → dead b n

/-- The choices in `u` that are not in `t` are dead choices of a search. -/
def Tried.Grows (t u : Tried) (owned : Address → Prop) (dead : Address → Nat → Prop) : Prop :=
  ∀ b n, u.has b n → t.has b n ∨ (owned b ∧ dead b n)

lemma Tried.Grows.trans {t u v : Tried} (h : t.Grows u owned dead) (h' : u.Grows v owned dead) :
    t.Grows v owned dead := by
  intro b n hv
  rcases h' b n hv with hu | hd
  · exact h b n hu
  · exact .inr hd

lemma Tried.Knows.grow {t u : Tried} (h : t.Knows owned dead) (hg : t.Grows u owned dead) :
    u.Knows owned dead := by
  intro b n hb hu
  rcases hg b n hu with ht | ⟨-, hd⟩
  · exact h b n hb ht
  · exact hd

/-- A search comes to the given end, having made dead choices only if it fails. -/
def Finding.Agrees (owned : Address → Prop) (dead : Address → Nat → Prop) (t : Tried)
    (f : Finding) : Option Run → Prop
  | some r => f = .found r
  | none => ∃ u, f = .failed u ∧ t.Grows u owned dead

lemma Finding.agrees_failed (t : Tried) : (Finding.failed t).Agrees owned dead t none :=
  ⟨t, rfl, fun _ _ hb => .inl hb⟩

lemma Finding.Agrees.widen {owned' : Address → Prop} {dead' : Address → Nat → Prop} {t : Tried}
    {f : Finding} {o : Option Run} (h : f.Agrees owned dead t o) (ho : ∀ b, owned b → owned' b)
    (hd : ∀ b n, owned b → dead b n → dead' b n) : f.Agrees owned' dead' t o := by
  rcases o with _ | r
  · obtain ⟨u, hu, hg⟩ := h
    exact ⟨u, hu, fun b n hb => (hg b n hb).imp_right fun ⟨h₁, h₂⟩ => ⟨ho b h₁, hd b n h₁ h₂⟩⟩
  · exact h

/-- A choice that is marked first may count as dead when the search has failed. -/
lemma Finding.Agrees.of_add {t : Tried} {a : Address} {n : Nat} {f : Finding} {o : Option Run}
    (h : f.Agrees owned dead (t.add a n) o) (hd : o = none → owned a ∧ dead a n) :
    f.Agrees owned dead t o := by
  rcases o with _ | r
  · obtain ⟨u, hu, hg⟩ := h
    refine ⟨u, hu, fun b m hb => ?_⟩
    rcases hg b m hb with hadd | hb
    · simp only [Tried.has_add, Bool.or_eq_true, decide_eq_true_eq] at hadd
      rcases hadd with ⟨rfl, rfl⟩ | hadd
      · exact .inr (hd rfl)
      · exact .inl hadd
    · exact .inr hb
  · exact h

lemma Tried.Knows.add {t : Tried} {a : Address} (ha : ¬ owned a) (h : t.Knows owned dead)
    (n : Nat) : (t.add a n).Knows owned dead := by
  intro b m hb hm
  have hba : b ≠ a := by rintro rfl; exact ha hb
  simp only [Tried.has_add, hba, and_false, decide_false, Bool.false_or] at hm
  exact h b m hb hm

/-- A search made after another has failed. -/
lemma Finding.Agrees.orElse {t : Tried} {f : Finding} {g : Tried → Finding} {o o' : Option Run}
    (hf : f.Agrees owned dead t o)
    (hg : ∀ u, t.Grows u owned dead → (g u).Agrees owned dead u o') :
    (f.orElse g).Agrees owned dead t (o.or o') := by
  rcases o with _ | r
  · obtain ⟨u, rfl, hu⟩ := hf
    have := hg u hu
    rcases o' with _ | r
    · obtain ⟨v, hv, hgv⟩ := this
      exact ⟨v, hv, hu.trans hgv⟩
    · exact this
  · have hf : f = .found r := hf
    rw [hf]
    exact rfl

/-- A search from places on the text of `origin` finds what `k` gives. -/
structure Search.Answers (origin : Place) (owned : Address → Prop) (dead : Address → Nat → Prop)
    (s : Search) (k : Run → Option Run) : Prop where
  agrees : ∀ r t, r.On origin → t.Knows owned dead → (s r t).Agrees owned dead t (k r)
  uniform : ∀ r g, k r = none → k { r with groups := g } = none

namespace Search.Answers

variable {s first second next : Search} {k k₁ k₂ : Run → Option Run}

lemma congr {dead' : Address → Nat → Prop} (h : Answers origin owned dead s k)
    (hd : ∀ b n, owned b → (dead' b n ↔ dead b n)) : Answers origin owned dead' s k := by
  refine ⟨fun r t hr ht => ?_, h.uniform⟩
  have := h.agrees r t hr fun b n hb hn => (hd b n hb).1 (ht b n hb hn)
  exact this.widen (fun _ hb => hb) fun b n hb => (hd b n hb).2

lemma mono {owned' : Address → Prop} (h : Answers origin owned dead s k)
    (ho : ∀ b, owned b → owned' b) : Answers origin owned' dead s k := by
  refine ⟨fun r t hr ht => ?_, h.uniform⟩
  have := h.agrees r t hr fun b n hb hn => ht b n (ho b hb) hn
  exact this.widen ho fun _ _ _ hd => hd

lemma congr_fun {k' : Run → Option Run} (h : Answers origin owned dead s k)
    (hk : ∀ r, k' r = k r) : Answers origin owned dead s k' := by
  obtain rfl : k' = k := funext hk
  exact h

lemma agrees_set {r : Run} {t : Tried} {cs : CharSet} {a : Address}
    (h : ∀ r', r.take? cs = some r' → (next r' t).Agrees owned dead t (k r')) :
    ((Pattern.set cs).search a next r t).Agrees owned dead t ((r.take? cs).bind k) := by
  simp only [Pattern.search]
  rcases htake : r.take? cs with _ | r'
  · exact Finding.agrees_failed t
  · exact h r' htake

/-- A choice has been made before and is dead, or is made now and dead if both ways fail. -/
lemma agrees_choose {r : Run} {t : Tried} {a : Address} {o : Option Run}
    (hold : t.has a r.taken = true → o = none)
    (hnew : ((first r (t.add a r.taken)).orElse (second r)).Agrees owned dead
      (t.add a r.taken) o)
    (hdead : o = none → owned a ∧ dead a r.taken) :
    (Search.choose a first second r t).Agrees owned dead t o := by
  unfold Search.choose
  by_cases hhas : t.has a r.taken = true
  · rw [if_pos hhas, hold hhas]
    exact Finding.agrees_failed t
  · rw [if_neg hhas]
    exact hnew.of_add hdead

lemma take (h : Answers origin owned dead next k) (cs : CharSet) (a : Address) :
    Answers origin owned dead ((Pattern.set cs).search a next) fun r => (r.take? cs).bind k := by
  constructor
  · intro r t hr ht
    exact agrees_set fun r' htake => h.agrees r' t (hr.take? htake) ht
  · intro r g hk
    have htake : { r with groups := g }.take? cs =
        (r.take? cs).map fun x => { x with groups := g } := r.take?_regroup cs fun _ => g
    rw [htake]
    rcases hc : r.take? cs with _ | r'
    · rfl
    · rw [hc] at hk
      exact h.uniform r' g hk

/-- A choice that what follows does not make again. -/
lemma choose {a : Address} (ha : ¬ owned a) (h₁ : Answers origin owned dead first k₁)
    (h₂ : Answers origin owned dead second k₂) :
    ∃ dead', (∀ b n, b ≠ a → (dead' b n ↔ dead b n)) ∧
      Answers origin (fun b => owned b ∨ b = a) dead' (Search.choose a first second)
        fun r => (k₁ r).or (k₂ r) := by
  have hu : ∀ r g, (k₁ r).or (k₂ r) = none →
      (k₁ { r with groups := g }).or (k₂ { r with groups := g }) = none := by
    intro r g hk
    obtain ⟨hk₁, hk₂⟩ := Option.or_eq_none_iff.1 hk
    exact Option.or_eq_none_iff.2 ⟨h₁.uniform r g hk₁, h₂.uniform r g hk₂⟩
  let dead' : Address → Nat → Prop := fun b n =>
    if b = a then ∀ r : Run, r.On origin → r.taken = n → (k₁ r).or (k₂ r) = none else dead b n
  have hdead : ∀ b n, b ≠ a → (dead' b n ↔ dead b n) := by
    intro b n hb
    simp only [dead', hb, if_false]
  have hother : ∀ b n, owned b → (dead' b n ↔ dead b n) := fun b n hb =>
    hdead b n (by rintro rfl; exact ha hb)
  refine ⟨dead', hdead,
    ⟨fun r t hr ht => agrees_choose (fun hhas => ?_) ?_ fun hk => ⟨.inr rfl, ?_⟩, hu⟩⟩
  · -- the choice has been made here before, so it is dead
    have := ht a r.taken (.inr rfl) hhas
    simp only [dead', if_true] at this
    exact this r hr rfl
  · have hknows : t.Knows owned dead := fun b n hb hn =>
      (hother b n hb).1 (ht b n (.inl hb) hn)
    have key := (h₁.agrees r _ hr (hknows.add ha r.taken)).orElse
      (g := second r) fun u hgu => h₂.agrees r u hr ((hknows.add ha r.taken).grow hgu)
    exact key.widen (fun _ => .inl) fun b n hb => (hother b n hb).2
  · -- both ways have failed, so the choice is dead now
    simp only [dead', if_true]
    intro r' hr' htaken
    have := hu r r'.groups hk
    rwa [hr.eq_of_taken hr' htaken.symm] at this

end Search.Answers

/-! ### Searching through lists -/

section Lists

variable {α β γ : Type}

lemma findSome?_flatMap (xs : List α) (f : α → List β) (g : β → Option γ) :
    (xs.flatMap f).findSome? g = xs.findSome? fun x => (f x).findSome? g := by
  induction xs with
  | nil => rfl
  | cons x xs ih =>
    rw [List.flatMap_cons, List.findSome?_append, ih, List.findSome?_cons]
    rcases (f x).findSome? g with _ | y <;> rfl

lemma findSome?_congr {xs : List α} {f g : α → Option β} (h : ∀ x ∈ xs, f x = g x) :
    xs.findSome? f = xs.findSome? g := by
  induction xs with
  | nil => rfl
  | cons x xs ih =>
    rw [List.findSome?_cons, List.findSome?_cons, h x List.mem_cons_self,
      ih fun y hy => h y (List.mem_cons_of_mem _ hy)]

end Lists

/-! ### Loops over a set of characters -/

namespace Pattern

/-- What a loop over a set comes to: going on after one character, or stopping. -/
lemma findSome?_upTo_set (cs : CharSet) (greedy : Bool) (n : Nat) (k : Run → Option Run) (r : Run) :
    (upTo (set cs).ways greedy (n + 1) r).findSome? k =
      let more := (r.take? cs).bind fun r => (upTo (set cs).ways greedy n r).findSome? k
      if greedy then more.or (k r) else (k r).or more := by
  have hmore : ((set cs).ways r).flatMap (upTo (set cs).ways greedy n) =
      (r.take? cs).elim [] (upTo (set cs).ways greedy n) := by
    show ((r.take? cs).toList).flatMap _ = _
    rcases r.take? cs with _ | r' <;> simp
  rw [upTo, hmore]
  rcases r.take? cs with _ | r' <;> cases greedy <;> rcases hk : k r with _ | x <;> simp [hk]

end Pattern

namespace Search.Answers

variable {s next : Search} {k : Run → Option Run}

lemma turns (h : Answers origin owned dead next k) (cs : CharSet) (a : Address) (first n : Nat) :
    Answers origin owned dead
      (Search.times (fun i => (Pattern.set cs).search ((2 * i + 1) :: a)) first n next)
      fun r => (Pattern.turns (Pattern.set cs).ways n r).findSome? k := by
  induction n generalizing first with
  | zero => exact h.congr_fun fun r => by simp [Pattern.turns]
  | succ n ih =>
    refine ((ih (first + 1)).take cs ((2 * first + 1) :: a)).congr_fun fun r => ?_
    simp only [Pattern.turns, Pattern.ways]
    rcases r.take? cs with _ | r' <;> simp

/-- A choice between going on and stopping, of which either may be preferred. -/
lemma choose_either {a : Address} {more stop : Search} {k₁ k₂ : Run → Option Run}
    (ha : ¬ owned a) (h₁ : Answers origin owned dead more k₁)
    (h₂ : Answers origin owned dead stop k₂) (greedy : Bool) :
    ∃ dead', (∀ b n, b ≠ a → (dead' b n ↔ dead b n)) ∧
      Answers origin (fun b => owned b ∨ b = a) dead'
        (if greedy then Search.choose a more stop else Search.choose a stop more)
        fun r => if greedy then (k₁ r).or (k₂ r) else (k₂ r).or (k₁ r) := by
  cases greedy with
  | true => exact choose ha h₁ h₂
  | false => exact choose ha h₂ h₁

lemma atMost {a : Address} (ha : ∀ b, owned b → ¬ a <:+ b) (h : Answers origin owned dead next k)
    (cs : CharSet) (greedy : Bool) (first n : Nat) :
    ∃ dead', (∀ b m, owned b → (dead' b m ↔ dead b m)) ∧
      Answers origin (fun b => owned b ∨ ∃ i, first ≤ i ∧ b = (2 * i) :: a) dead'
        (Search.atMost (fun i => (Pattern.set cs).search ((2 * i + 1) :: a))
          (fun i more stop => if greedy then Search.choose ((2 * i) :: a) more stop
            else Search.choose ((2 * i) :: a) stop more) first n next)
        fun r => (Pattern.upTo (Pattern.set cs).ways greedy n r).findSome? k := by
  induction n generalizing first with
  | zero =>
    exact ⟨dead, fun _ _ _ => .rfl,
      (h.mono fun _ => .inl).congr_fun fun r => by simp [Pattern.upTo]⟩
  | succ n ih =>
    obtain ⟨dead₁, hd₁, hs₁⟩ := ih (first + 1)
    have hturn := hs₁.take cs ((2 * first + 1) :: a)
    have hstop : Answers origin (fun b => owned b ∨ ∃ i, first + 1 ≤ i ∧ b = (2 * i) :: a) dead₁
        next k := (h.congr hd₁).mono fun _ => .inl
    have hnew : ¬ (owned ((2 * first) :: a) ∨
        ∃ i, first + 1 ≤ i ∧ (2 * first) :: a = (2 * i) :: a) := by
      rintro (ho | ⟨i, hi, he⟩)
      · exact ha _ ho (List.suffix_cons _ _)
      · injection he with he
        omega
    obtain ⟨dead₂, hd₂, hs₂⟩ := choose_either hnew hturn hstop greedy
    refine ⟨dead₂, fun b m hb => ?_, ?_⟩
    · have hne : b ≠ (2 * first) :: a := by
        rintro rfl
        exact ha _ hb (List.suffix_cons _ _)
      rw [hd₂ b m hne, hd₁ b m hb]
    · refine (hs₂.mono ?_).congr_fun fun r => ?_
      · rintro b ((hb | ⟨i, hi, rfl⟩) | rfl)
        · exact .inl hb
        · exact .inr ⟨i, by omega, rfl⟩
        · exact .inr ⟨first, Nat.le_refl _, rfl⟩
      · exact Pattern.findSome?_upTo_set cs greedy n k r

end Search.Answers

/-! ### Loops without a bound -/

namespace Pattern

/-- What a loop comes to from a run on, if every turn takes something. -/
def loopEnd (body : Pattern) (greedy : Bool) (k : Run → Option Run) (r : Run) : Option Run :=
  (upTo body.ways greedy r.place.rest.length r).findSome? k

def Consumes (body : Pattern) : Prop :=
  ∀ r, ∀ r' ∈ body.ways r, r'.place.rest.length < r.place.rest.length

lemma consumes_set (cs : CharSet) : (set cs).Consumes := by
  intro r r' hr'
  exact Run.rest_lt_of_take? (Option.mem_toList.1 hr')

variable {body : Pattern} {greedy : Bool} {k : Run → Option Run}

/-- More turns than characters make no difference. -/
lemma Consumes.upTo_eq (h : body.Consumes) {m n : Nat} {r : Run} (hm : r.place.rest.length ≤ m)
    (hn : r.place.rest.length ≤ n) : upTo body.ways greedy m r = upTo body.ways greedy n r := by
  have hnil : r.place.rest.length = 0 → body.ways r = [] := by
    intro h0
    rw [List.eq_nil_iff_forall_not_mem]
    intro r' hr'
    have := h r r' hr'
    omega
  induction m generalizing n r with
  | zero => cases n <;> cases greedy <;> simp [upTo, hnil (Nat.le_zero.1 hm)]
  | succ m ih =>
    cases n with
    | zero => cases greedy <;> simp [upTo, hnil (Nat.le_zero.1 hn)]
    | succ n =>
      have hmore : (body.ways r).flatMap (upTo body.ways greedy m) =
          (body.ways r).flatMap (upTo body.ways greedy n) := by
        refine List.flatMap_congr fun r' hr' => ?_
        have hlt := h r r' hr'
        refine ih (by omega) (by omega) fun h0 => ?_
        rw [List.eq_nil_iff_forall_not_mem]
        intro x hx
        have := h r' x hx
        omega
      rw [upTo, upTo, hmore]

lemma Consumes.loopEnd_eq (h : body.Consumes) (r : Run) :
    body.loopEnd greedy k r =
      let more := (body.ways r).findSome? (body.loopEnd greedy k)
      if greedy then more.or (k r) else (k r).or more := by
  have hlen : body.loopEnd greedy k r =
      (upTo body.ways greedy (r.place.rest.length + 1) r).findSome? k := by
    unfold loopEnd
    rw [h.upTo_eq (Nat.le_refl _) (Nat.le_succ _)]
  have hmore : ((body.ways r).flatMap (upTo body.ways greedy r.place.rest.length)).findSome? k =
      (body.ways r).findSome? (body.loopEnd greedy k) := by
    rw [findSome?_flatMap]
    refine findSome?_congr fun r' hr' => ?_
    rw [loopEnd, h.upTo_eq (Nat.le_of_lt (h r r' hr')) (Nat.le_refl _)]
  rw [hlen, upTo]
  cases greedy <;> rcases hk : k r with _ | x <;> simp [hk, List.findSome?_append, hmore]

/-- A continuation that does not ask for the groups fails after all ways of a run if it fails after
all ways of the run with other groups. -/
lemma findSome?_uniform {ws : Run → List Run}
    (hws : ∀ g r, ws (r.regroup (· ++ g)) = (ws r).map (Run.regroup (· ++ g)))
    (hk : ∀ r g, k r = none → k { r with groups := g } = none) (r : Run) (g : List Nat)
    (hr : (ws r).findSome? k = none) : (ws { r with groups := g }).findSome? k = none := by
  have hbare : ∀ g, ws { r with groups := g } =
      (ws { r with groups := [] }).map (Run.regroup (· ++ g)) :=
    fun g => hws g { r with groups := [] }
  have hself : (ws { r with groups := r.groups }).findSome? k = none := hr
  rw [hbare, List.findSome?_map, List.findSome?_eq_none_iff] at hself ⊢
  exact fun x hx => hk (x.regroup (· ++ r.groups)) (x.groups ++ g) (hself x hx)

lemma ways_outer (body : Pattern) (g : List Nat) (r : Run) :
    body.ways (r.regroup (· ++ g)) = (body.ways r).map (Run.regroup (· ++ g)) :=
  ways_regroup (.inr fun _ _ => rfl) r

lemma findSome?_ways_uniform (hk : ∀ r g, k r = none → k { r with groups := g } = none) (r : Run)
    (g : List Nat) (hr : (body.ways r).findSome? k = none) :
    (body.ways { r with groups := g }).findSome? k = none :=
  findSome?_uniform (ways_outer body) hk r g hr

lemma loopEnd_uniform (hk : ∀ r g, k r = none → k { r with groups := g } = none) (r : Run)
    (g : List Nat) (hr : body.loopEnd greedy k r = none) :
    body.loopEnd greedy k { r with groups := g } = none := by
  unfold loopEnd at hr ⊢
  exact findSome?_uniform (fun g => upTo_regroup (ways_outer body g) greedy _) hk r g hr

lemma loopEnd_set_of_taken (greedy : Bool) (k : Run → Option Run) {cs : CharSet} {r r' : Run}
    (h : r.take? cs = some r') :
    (set cs).loopEnd greedy k r = if greedy then ((set cs).loopEnd greedy k r').or (k r)
      else (k r).or ((set cs).loopEnd greedy k r') := by
  rw [(consumes_set cs).loopEnd_eq]
  simp [ways, h]

lemma loopEnd_set_of_not_taken (greedy : Bool) (k : Run → Option Run) {cs : CharSet} {r : Run}
    (h : r.take? cs = none) :
    (set cs).loopEnd greedy k r = k r := by
  rw [(consumes_set cs).loopEnd_eq]
  cases greedy <;> simp [ways, h]

end Pattern

namespace Search.Answers

variable {next : Search} {k : Run → Option Run} {body : Pattern} {cs : CharSet} {c : Address}
  {greedy : Bool}

/-- Of the choices of a loop, all that were made from offset `n` on are dead. -/
def Ahead (loop owned : Address → Prop) (dead : Address → Nat → Prop) (t : Tried) (n : Nat) :
    Prop :=
  ∀ b m, owned b ∨ (loop b ∧ n ≤ m) → t.has b m → dead b m

section Ahead

variable {loop : Address → Prop} {t u : Tried} {n : Nat} {a : Address}

lemma Ahead.of_knows (h : t.Knows (fun b => owned b ∨ loop b) dead) (n : Nat) :
    Ahead loop owned dead t n := by
  rintro b m (hb | ⟨hb, -⟩) hm
  · exact h b m (.inl hb) hm
  · exact h b m (.inr hb) hm

lemma Ahead.dead_of_has (h : Ahead loop owned dead t n) (ha : loop a) (hn : t.has a n = true) :
    dead a n :=
  h a n (.inr ⟨ha, Nat.le_refl _⟩) hn

lemma Ahead.later (h : Ahead loop owned dead t n) {m : Nat} (hm : n ≤ m) :
    Ahead loop owned dead t m := by
  intro b l hb
  rcases hb with hb | ⟨hb, hl⟩
  · exact h b l (.inl hb)
  · exact h b l (.inr ⟨hb, by omega⟩)

lemma Ahead.add (h : Ahead loop owned dead t n) (ha : ¬ owned a) {l : Nat} (hl : l < n) :
    Ahead loop owned dead (t.add a l) n := by
  intro b m hb hm
  simp only [Tried.has_add, Bool.or_eq_true, decide_eq_true_eq] at hm
  rcases hm with ⟨rfl, rfl⟩ | hm
  · rcases hb with hb | ⟨-, hn⟩
    · exact absurd hb ha
    · omega
  · exact h b m hb hm

/-- A choice made now is behind whatever the loop does after one character. -/
lemma Ahead.mark (h : Ahead loop owned dead t n) (ha : ¬ owned a) :
    Ahead loop owned dead (t.add a n) (n + 1) :=
  (h.later (Nat.le_succ n)).add ha (Nat.lt_succ_self n)

lemma Ahead.grow (h : Ahead loop owned dead t n)
    (hg : t.Grows u (fun b => owned b ∨ loop b) dead) : Ahead loop owned dead u n := by
  intro b m hb hu
  rcases hg b m hu with ht | ⟨-, hd⟩
  · exact h b m hb ht
  · exact hd

/-- What follows a loop makes none of its choices. -/
lemma agrees_in_loop (h : Answers origin owned dead next k) {dead' : Address → Nat → Prop}
    (hother : ∀ b m, owned b → (dead' b m ↔ dead b m)) {r : Run} (hr : r.On origin)
    (ht : Ahead loop owned dead' t n) :
    (next r t).Agrees (fun b => owned b ∨ loop b) dead' t (k r) := by
  have hknows : t.Knows owned dead := fun b m hb hm => (hother b m hb).1 (ht b m (.inl hb) hm)
  exact (h.agrees r t hr hknows).widen (fun _ => .inl) fun b m hb => (hother b m hb).2

end Ahead

/-- The places at which a loop is dead, where `c` is the choice before each turn. -/
def loopDead (origin : Place) (body : Pattern) (greedy : Bool) (k : Run → Option Run) (c : Address)
    (dead : Address → Nat → Prop) : Address → Nat → Prop := fun b n =>
  if b = c then ∀ r : Run, r.On origin → r.taken = n → body.loopEnd greedy k r = none
  else dead b n

section LoopDead

variable {r : Run}

lemma loopDead_other (hc : ¬ owned c) {b : Address} {n : Nat} (hb : owned b) :
    loopDead origin body greedy k c dead b n ↔ dead b n := by
  have : b ≠ c := by rintro rfl; exact hc hb
  simp [loopDead, this]

lemma loopEnd_of_dead (hr : r.On origin) (hd : loopDead origin body greedy k c dead c r.taken) :
    body.loopEnd greedy k r = none := by
  simp only [loopDead, if_true] at hd
  exact hd r hr rfl

lemma loopDead_of_fails (h : Answers origin owned dead next k) (hr : r.On origin)
    (hk : body.loopEnd greedy k r = none) : loopDead origin body greedy k c dead c r.taken := by
  simp only [loopDead, if_true]
  intro r' hr' ht
  have := Pattern.loopEnd_uniform h.uniform r r'.groups hk
  rwa [hr.eq_of_taken hr' ht.symm] at this

end LoopDead

lemma fromAny (h : Answers origin owned dead next k) {rs : List Run} (hrs : ∀ r ∈ rs, r.On origin)
    {t : Tried} (ht : t.Knows owned dead) :
    (Search.fromAny next rs t).Agrees owned dead t (rs.findSome? k) := by
  induction rs generalizing t with
  | nil => exact Finding.agrees_failed t
  | cons r rs ih =>
    have key := (h.agrees r t (hrs r List.mem_cons_self) ht).orElse fun u hu =>
      ih (fun x hx => hrs x (List.mem_cons_of_mem _ hx)) (ht.grow hu)
    rw [List.findSome?_cons]
    rcases hk : k r with _ | x
    · rw [hk] at key
      simpa [Search.fromAny] using key
    · rw [hk] at key
      exact key

/-- The runs that a greedy loop gathers from a run on. The first of them that goes on is what the
loop comes to. If none does, the choices marked on the way are dead. -/
structure Gathers (origin : Place) (cs : CharSet) (k : Run → Option Run) (c : Address)
    (dead : Address → Nat → Prop) (r : Run) (t u : Tried) (news : List Run) : Prop where
  on : ∀ x ∈ news, x.On origin
  finds : news.findSome? k = (Pattern.set cs).loopEnd true k r
  marks : ∀ b n, u.has b n → t.has b n ∨
    (b = c ∧ (news.findSome? k = none → loopDead origin (.set cs) true k c dead c n))

namespace Gathers

variable {r r' : Run} {t u : Tried} {news : List Run}

lemma nothing (hr : r.On origin) (hd : loopDead origin (.set cs) true k c dead c r.taken) :
    Gathers origin cs k c dead r t t [] :=
  ⟨by simp, (loopEnd_of_dead hr hd).symm, fun _ _ hb => .inl hb⟩

lemma stop (h : Answers origin owned dead next k) (hr : r.On origin) (htake : r.take? cs = none) :
    Gathers origin cs k c dead r t (t.add c r.taken) [r] := by
  have hfinds : [r].findSome? k = (Pattern.set cs).loopEnd true k r := by
    rw [Pattern.loopEnd_set_of_not_taken true k htake]
    rcases hk : k r with _ | x <;> simp [hk]
  refine ⟨by simpa using hr, hfinds, fun b n hb => ?_⟩
  simp only [Tried.has_add, Bool.or_eq_true, decide_eq_true_eq] at hb
  rcases hb with ⟨rfl, rfl⟩ | hb
  · exact .inr ⟨rfl, fun hn => loopDead_of_fails h hr (hfinds ▸ hn)⟩
  · exact .inl hb

lemma more (h : Answers origin owned dead next k) (hr : r.On origin)
    (htake : r.take? cs = some r') (hg : Gathers origin cs k c dead r' (t.add c r.taken) u news) :
    Gathers origin cs k c dead r t u (news ++ [r]) := by
  have hfinds : (news ++ [r]).findSome? k = (Pattern.set cs).loopEnd true k r := by
    rw [Pattern.loopEnd_set_of_taken true k htake, ← hg.finds, List.findSome?_append]
    rcases hk : k r with _ | x <;> simp [hk]
  refine ⟨fun x hx => ?_, hfinds, fun b n hb => ?_⟩
  · rcases List.mem_append.1 hx with hx | hx
    · exact hg.on x hx
    · obtain rfl := List.mem_singleton.1 hx
      exact hr
  · rcases hg.marks b n hb with hb | ⟨rfl, hb⟩
    · simp only [Tried.has_add, Bool.or_eq_true, decide_eq_true_eq] at hb
      rcases hb with ⟨rfl, rfl⟩ | hb
      · exact .inr ⟨rfl, fun hn => loopDead_of_fails h hr (hfinds ▸ hn)⟩
      · exact .inl hb
    · refine .inr ⟨rfl, fun hn => hb ?_⟩
      rw [List.findSome?_append] at hn
      exact (Option.or_eq_none_iff.1 hn).1

end Gathers

/-- A greedy loop takes the runs it can, the longest first. -/
lemma stretch_spec (hc : ¬ owned c) (h : Answers origin owned dead next k) (groups : List Nat)
    (rest : List Char) (before : Option Char) (taken : Nat) (shorter : List Run) (t : Tried)
    (hr : Run.On origin ⟨⟨before, rest⟩, taken, groups⟩)
    (ht : Ahead (· = c) owned (loopDead origin (.set cs) true k c dead) t taken) :
    ∃ news u, stretch cs c groups before taken shorter rest t = (news ++ shorter, u) ∧
      Gathers origin cs k c dead ⟨⟨before, rest⟩, taken, groups⟩ t u news := by
  induction rest generalizing before taken shorter t with
  | nil =>
    unfold stretch
    by_cases hhas : t.has c taken = true
    · exact ⟨[], t, by simp [hhas], .nothing hr (ht.dead_of_has rfl hhas)⟩
    · exact ⟨_, _, by rw [if_neg hhas]; rfl, .stop h hr rfl⟩
  | cons d ds ih =>
    unfold stretch
    by_cases hhas : t.has c taken = true
    · exact ⟨[], t, by simp [hhas], .nothing hr (ht.dead_of_has rfl hhas)⟩
    · set r : Run := ⟨⟨before, d :: ds⟩, taken, groups⟩ with hrdef
      by_cases hcs : cs.contains d = true
      · -- the loop goes on
        have htake : r.take? cs = some ⟨⟨some d, ds⟩, taken + 1, groups⟩ := by
          simp [Run.take?, hrdef, hcs]
        obtain ⟨news, u, hst, hnews⟩ := ih (some d) (taken + 1) (r :: shorter) (t.add c taken)
          (hr.take? htake) (ht.mark hc)
        exact ⟨news ++ [r], u, by simp [hhas, hcs, hst], hnews.more h hr htake⟩
      · -- the loop stops here
        have htake : r.take? cs = none := by simp [Run.take?, hrdef, hcs]
        exact ⟨[r], t.add c taken, by simp [hhas, hcs, hrdef], .stop h hr htake⟩

/-- A lazy loop tries what follows at once and then after each character. -/
lemma creep_spec (hc : ¬ owned c) (h : Answers origin owned dead next k) (groups : List Nat)
    (rest : List Char) (before : Option Char) (taken : Nat) (t : Tried)
    (hr : Run.On origin ⟨⟨before, rest⟩, taken, groups⟩)
    (ht : Ahead (· = c) owned (loopDead origin (.set cs) false k c dead) t taken) :
    (creep cs c groups next before taken rest t).Agrees (fun b => owned b ∨ b = c)
      (loopDead origin (.set cs) false k c dead) t
      ((Pattern.set cs).loopEnd false k ⟨⟨before, rest⟩, taken, groups⟩) := by
  induction rest generalizing before taken t with
  | nil =>
    unfold creep
    by_cases hhas : t.has c taken = true
    · rw [if_pos hhas, loopEnd_of_dead hr (ht.dead_of_has rfl hhas)]
      exact Finding.agrees_failed t
    · have hend := Pattern.loopEnd_set_of_not_taken false k
        (show Run.take? cs ⟨⟨before, []⟩, taken, groups⟩ = none from rfl)
      rw [if_neg hhas, hend]
      have key := h.agrees_in_loop (fun b m hb => loopDead_other hc hb) hr (ht.mark hc)
      exact key.of_add fun hk => ⟨.inr rfl, loopDead_of_fails h hr (hend.trans hk)⟩
  | cons d ds ih =>
    unfold creep
    by_cases hhas : t.has c taken = true
    · rw [if_pos hhas, loopEnd_of_dead hr (ht.dead_of_has rfl hhas)]
      exact Finding.agrees_failed t
    · rw [if_neg hhas]
      set r : Run := ⟨⟨before, d :: ds⟩, taken, groups⟩ with hrdef
      have key := h.agrees_in_loop (fun b m hb => loopDead_other hc hb) hr (ht.mark hc)
      by_cases hcs : cs.contains d = true
      · have htake : r.take? cs = some ⟨⟨some d, ds⟩, taken + 1, groups⟩ := by
          simp [Run.take?, hrdef, hcs]
        have hend := Pattern.loopEnd_set_of_taken false k htake
        have hall := key.orElse (g := creep cs c groups next (some d) (taken + 1) ds) fun u hu =>
          ih (some d) (taken + 1) u (hr.take? htake) ((ht.mark hc).grow hu)
        simp only [hcs, if_true]
        rw [hend]
        exact hall.of_add fun hk => ⟨.inr rfl, loopDead_of_fails h hr (hend.trans hk)⟩
      · have htake : r.take? cs = none := by simp [Run.take?, hrdef, hcs]
        have hend := Pattern.loopEnd_set_of_not_taken false k htake
        have hall := key.orElse fun u _ => Finding.agrees_failed u
        simp only [hcs]
        rw [hend]
        rw [Option.or_none] at hall
        exact hall.of_add fun hk => ⟨.inr rfl, loopDead_of_fails h hr (hend.trans hk)⟩

lemma spell (hc : ¬ owned c) (h : Answers origin owned dead next k) (cs : CharSet)
    (greedy : Bool) :
    Answers origin (fun b => owned b ∨ b = c) (loopDead origin (.set cs) greedy k c dead)
      (Search.spell cs c greedy next) ((Pattern.set cs).loopEnd greedy k) := by
  refine ⟨fun r t hr ht => ?_, Pattern.loopEnd_uniform h.uniform⟩
  have hahead := Ahead.of_knows ht r.taken
  unfold Search.spell
  cases greedy with
  | false => exact creep_spec hc h r.groups _ _ _ t hr hahead
  | true =>
    obtain ⟨news, u, hst, hnews⟩ := stretch_spec hc h r.groups r.place.rest r.place.before r.taken
      [] t hr hahead
    simp only [if_true, hst, List.append_nil]
    have hku : u.Knows owned dead := by
      intro b n hb hn
      rcases hnews.marks b n hn with hn | ⟨rfl, -⟩
      · exact (loopDead_other hc hb).1 (ht b n (.inl hb) hn)
      · exact absurd hb hc
    have key : (Search.fromAny next news u).Agrees (fun b => owned b ∨ b = c)
        (loopDead origin (.set cs) true k c dead) u (news.findSome? k) :=
      (fromAny h hnews.on hku).widen (fun _ => .inl) fun b n hb hd => (loopDead_other hc hb).2 hd
    rw [← show news.findSome? k = (Pattern.set cs).loopEnd true k r from hnews.finds]
    rcases hk : news.findSome? k with _ | x
    · rw [hk] at key
      obtain ⟨v, hv, hg⟩ := key
      refine ⟨v, hv, fun b n hb => ?_⟩
      rcases hg b n hb with hb | hd
      · rcases hnews.marks b n hb with hb | ⟨rfl, hd⟩
        · exact .inl hb
        · exact .inr ⟨.inr rfl, hd hk⟩
      · exact .inr hd
    · rw [hk] at key
      exact key

end Search.Answers

/-! ### Loops over one character or two -/

namespace Pattern

def oneOrTwo (x y z : CharSet) : Pattern := alt (set x) (seq (set y) (set z))

lemma findSome?_oneOrTwo (x y z : CharSet) (k : Run → Option Run) (r : Run) :
    ((oneOrTwo x y z).ways r).findSome? k =
      ((r.take? x).bind k).or ((r.take? y).bind fun r => (r.take? z).bind k) := by
  simp only [oneOrTwo, ways, List.findSome?_append]
  congr 1
  · rcases r.take? x with _ | r' <;> simp
  · rcases r.take? y with _ | r' <;> simp
    rcases r'.take? z with _ | r'' <;> simp

lemma consumes_oneOrTwo (x y z : CharSet) : (oneOrTwo x y z).Consumes := by
  intro r r' hr'
  rcases List.mem_append.1 hr' with h | h
  · exact consumes_set x r r' h
  · obtain ⟨s, hs, h⟩ := List.mem_flatMap.1 h
    exact Nat.lt_trans (consumes_set z s r' h) (consumes_set y r s hs)

end Pattern

namespace Search.Answers

variable {next : Search} {k : Run → Option Run}

/-- The places at which the choices of a loop over one character or two are dead: `c` before each
turn, and `d` between one and two. -/
def pairDead (origin : Place) (body : Pattern) (greedy : Bool) (k : Run → Option Run)
    (c d : Address) (dead : Address → Nat → Prop) : Address → Nat → Prop := fun b n =>
  if b = d then ∀ r : Run, r.On origin → r.taken = n →
    (body.ways r).findSome? (body.loopEnd greedy k) = none
  else loopDead origin body greedy k c dead b n

section OneOrTwo

variable {c d : Address} {x y z : CharSet} {greedy : Bool} {s : Search} {r : Run} {t : Tried}

lemma pairDead_other (hc : ¬ owned c) (hd : ¬ owned d) {body : Pattern} {b : Address} {m : Nat}
    (hb : owned b) : pairDead origin body greedy k c d dead b m ↔ dead b m := by
  have hbd : b ≠ d := by rintro rfl; exact hd hb
  simp only [pairDead, hbd, if_false]
  exact loopDead_other hc hb

lemma pairDead_turn (hcd : c ≠ d) {body : Pattern} {m : Nat} :
    pairDead origin body greedy k c d dead c m ↔ loopDead origin body greedy k c dead c m := by
  simp only [pairDead, hcd, if_false]

lemma pairDead_between {body : Pattern} {m : Nat} :
    pairDead origin body greedy k c d dead d m ↔ ∀ r : Run, r.On origin → r.taken = m →
      (body.ways r).findSome? (body.loopEnd greedy k) = none := by
  simp only [pairDead, if_true]

/-- One turn, after which the loop goes on from a later place. -/
lemma oneOrTwo_spec (hd : ¬ owned d) (h : Answers origin owned dead next k)
    (hs : ∀ r' t, r'.On origin → r'.place.rest.length < r.place.rest.length →
      r.taken < r'.taken →
      Ahead (fun b => b = c ∨ b = d) owned
        (pairDead origin (.oneOrTwo x y z) greedy k c d dead) t (r.taken + 1) →
      (s r' t).Agrees (fun b => owned b ∨ b = c ∨ b = d)
        (pairDead origin (.oneOrTwo x y z) greedy k c d dead) t
        ((Pattern.oneOrTwo x y z).loopEnd greedy k r'))
    (hr : r.On origin)
    (ht : Ahead (fun b => b = c ∨ b = d) owned
      (pairDead origin (.oneOrTwo x y z) greedy k c d dead) t (r.taken + 1))
    (htd : t.has d r.taken → pairDead origin (.oneOrTwo x y z) greedy k c d dead d r.taken) :
    ((Pattern.oneOrTwo x y z).search d s r t).Agrees (fun b => owned b ∨ b = c ∨ b = d)
      (pairDead origin (.oneOrTwo x y z) greedy k c d dead) t
      (((Pattern.oneOrTwo x y z).ways r).findSome?
        ((Pattern.oneOrTwo x y z).loopEnd greedy k)) := by
  have hpair : (Pattern.oneOrTwo x y z).search d s =
      Search.choose d ((Pattern.set x).search (0 :: d) s)
        ((Pattern.set y).search (0 :: 1 :: d) ((Pattern.set z).search (1 :: 1 :: d) s)) := rfl
  rw [hpair]
  refine agrees_choose (fun hhas => pairDead_between.1 (htd hhas) r hr rfl) ?_
    fun hk => ⟨.inr (.inr rfl), pairDead_between.2 fun r' hr' htaken => ?_⟩
  · have hadd := ht.add hd (Nat.lt_succ_self r.taken)
    rw [Pattern.findSome?_oneOrTwo]
    refine Finding.Agrees.orElse (agrees_set fun r' hx => ?_) fun u hu =>
      agrees_set fun r' hy => agrees_set fun r'' hz => ?_
    · exact hs r' _ (hr.take? hx) (Run.rest_lt_of_take? hx) (Run.taken_lt_of_take? hx) hadd
    · exact hs r'' u ((hr.take? hy).take? hz)
        (Nat.lt_trans (Run.rest_lt_of_take? hz) (Run.rest_lt_of_take? hy))
        (Nat.lt_trans (Run.taken_lt_of_take? hy) (Run.taken_lt_of_take? hz)) (hadd.grow hu)
  · have := Pattern.findSome?_ways_uniform (Pattern.loopEnd_uniform h.uniform) r r'.groups hk
    rwa [hr.eq_of_taken hr' htaken.symm] at this

lemma many_spec (hc : ¬ owned c) (hd : ¬ owned d) (hcd : c ≠ d)
    (h : Answers origin owned dead next k) (n : Nat) (r : Run) (t : Tried) (hr : r.On origin)
    (hn : r.place.rest.length < n)
    (ht : Ahead (fun b => b = c ∨ b = d) owned
      (pairDead origin (.oneOrTwo x y z) greedy k c d dead) t r.taken) :
    (Search.many ((Pattern.oneOrTwo x y z).search d)
      (fun more stop => if greedy then Search.choose c more stop else Search.choose c stop more)
      next n r t).Agrees (fun b => owned b ∨ b = c ∨ b = d)
        (pairDead origin (.oneOrTwo x y z) greedy k c d dead) t
        ((Pattern.oneOrTwo x y z).loopEnd greedy k r) := by
  induction n generalizing r t with
  | zero => omega
  | succ n ih =>
    rw [Search.many]
    set s := Search.many ((Pattern.oneOrTwo x y z).search d)
      (fun more stop => if greedy then Search.choose c more stop else Search.choose c stop more)
      next n
    have hahead := ht.mark hc
    have hnext : ∀ u, Ahead (fun b => b = c ∨ b = d) owned
        (pairDead origin (.oneOrTwo x y z) greedy k c d dead) u (r.taken + 1) →
        (next r u).Agrees (fun b => owned b ∨ b = c ∨ b = d)
          (pairDead origin (.oneOrTwo x y z) greedy k c d dead) u (k r) :=
      fun u hu => h.agrees_in_loop (fun b m => pairDead_other hc hd) hr hu
    have hturn := fun u => oneOrTwo_spec (c := c) (s := s) (t := u) hd h
      (fun r' t' hr' hlen htaken ht' => ih r' t' hr' (by omega) (ht'.later htaken)) hr
    have hhasd : (t.add c r.taken).has d r.taken →
        pairDead origin (.oneOrTwo x y z) greedy k c d dead d r.taken := by
      intro hb
      simp only [Tried.has_add, hcd.symm, and_false, decide_false, Bool.false_or] at hb
      exact ht.dead_of_has (.inr rfl) hb
    have hold : t.has c r.taken = true → (Pattern.oneOrTwo x y z).loopEnd greedy k r = none :=
      fun hhas => loopEnd_of_dead hr ((pairDead_turn hcd).1 (ht.dead_of_has (.inl rfl) hhas))
    have hdead : (Pattern.oneOrTwo x y z).loopEnd greedy k r = none →
        (owned c ∨ c = c ∨ c = d) ∧
          pairDead origin (.oneOrTwo x y z) greedy k c d dead c r.taken :=
      fun hk => ⟨.inr (.inl rfl), (pairDead_turn hcd).2 (loopDead_of_fails h hr hk)⟩
    cases greedy with
    | true =>
      refine agrees_choose hold ?_ hdead
      rw [(Pattern.consumes_oneOrTwo x y z).loopEnd_eq]
      exact (hturn _ hahead hhasd).orElse fun u hu => hnext u (hahead.grow hu)
    | false =>
      refine agrees_choose hold ?_ hdead
      rw [(Pattern.consumes_oneOrTwo x y z).loopEnd_eq]
      refine (hnext _ hahead).orElse fun u hu => hturn u (hahead.grow hu) fun hb => ?_
      rcases hu d r.taken hb with hb | ⟨-, hb⟩
      · exact hhasd hb
      · exact hb

end OneOrTwo

end Search.Answers

/-! ### Patterns -/

namespace Pattern

/-- Whether loops without a bound repeat a set, or one character or two, and others a set. -/
def isPlain : Pattern → Bool
  | empty | set _ | look _ => true
  | seq p q | alt p q => p.isPlain && q.isPlain
  | group _ p => p.isPlain
  | rep (set s) _ _ _ => (set s).isProper
  | rep (alt (set x) (seq (set y) (set z))) 0 none _ => (oneOrTwo x y z).isProper
  | rep .. => false

/-- Wherever a pattern stands, its search goes through its ways in order. -/
def Faithful (origin : Place) (p : Pattern) : Prop :=
  ∀ (a : Address) (owned : Address → Prop) (dead : Address → Nat → Prop) (s : Search)
    (k : Run → Option Run), (∀ b, owned b → ¬ a <:+ b) → Search.Answers origin owned dead s k →
    ∃ dead', (∀ b n, owned b → (dead' b n ↔ dead b n)) ∧
      Search.Answers origin (fun b => owned b ∨ a <:+ b) dead' (p.search a s)
        fun r => (p.ways r).findSome? k

variable {p q : Pattern}

lemma faithful_empty : Faithful origin empty := by
  intro a owned dead s k ha h
  exact ⟨dead, fun _ _ _ => .rfl, (h.mono fun _ => .inl).congr_fun fun r => by simp [ways]⟩

lemma faithful_set (cs : CharSet) : Faithful origin (set cs) := by
  intro a owned dead s k ha h
  refine ⟨dead, fun _ _ _ => .rfl, ((h.take cs a).mono fun _ => .inl).congr_fun fun r => ?_⟩
  simp only [ways]
  rcases r.take? cs with _ | r' <;> simp

lemma faithful_look (l : Look) : Faithful origin (look l) := by
  intro a owned dead s k ha h
  refine ⟨dead, fun _ _ _ => .rfl, ⟨fun r t hr ht => ?_, fun r g hk => ?_⟩⟩
  · have h' : Search.Answers origin (fun b => owned b ∨ a <:+ b) dead s k := h.mono fun _ => .inl
    have key := h'.agrees r t hr ht
    by_cases hl : l.holds r.place = true
    · simpa [search, ways, hl] using key
    · simp only [search, ways, hl]
      exact Finding.agrees_failed t
  · by_cases hl : l.holds r.place = true
    · simp only [ways, hl, if_true] at hk ⊢
      simpa using h.uniform r g (by simpa using hk)
    · simp [ways, hl]

lemma not_suffix_of_ne {i j : Nat} (hij : i ≠ j) {a b : Address} (h : (i :: a) <:+ b) :
    ¬ (j :: a) <:+ b := by
  intro h'
  have := (List.suffix_of_suffix_length_le h h' (by simp)).eq_of_length (by simp)
  injection this with h₁
  exact hij h₁

lemma Faithful.seq (hp : Faithful origin p) (hq : Faithful origin q) :
    Faithful origin (seq p q) := by
  intro a owned dead s k ha h
  obtain ⟨dead₁, hd₁, h₁⟩ := hq (1 :: a) owned dead s k
    (fun b hb hs => ha b hb ((List.suffix_cons 1 a).trans hs)) h
  obtain ⟨dead₂, hd₂, h₂⟩ := hp (0 :: a) _ dead₁ _ _ (by
    rintro b (hb | hb) hs
    · exact ha b hb ((List.suffix_cons 0 a).trans hs)
    · exact not_suffix_of_ne (by decide) hb hs) h₁
  refine ⟨dead₂, fun b n hb => (hd₂ b n (.inl hb)).trans (hd₁ b n hb), ?_⟩
  refine (h₂.mono ?_).congr_fun fun r => ?_
  · rintro b ((hb | hb) | hb)
    · exact .inl hb
    · exact .inr ((List.suffix_cons 1 a).trans hb)
    · exact .inr ((List.suffix_cons 0 a).trans hb)
  · simp only [ways, findSome?_flatMap]

lemma Faithful.alt (hp : Faithful origin p) (hq : Faithful origin q) :
    Faithful origin (alt p q) := by
  intro a owned dead s k ha h
  obtain ⟨dead₁, hd₁, h₁⟩ := hp (0 :: a) owned dead s k
    (fun b hb hs => ha b hb ((List.suffix_cons 0 a).trans hs)) h
  -- the other side starts from what the first one leaves dead
  obtain ⟨dead₂, hd₂, h₂⟩ := hq (1 :: a) (fun b => owned b ∨ 0 :: a <:+ b) dead₁ s k (by
    rintro b (hb | hb) hs
    · exact ha b hb ((List.suffix_cons 1 a).trans hs)
    · exact not_suffix_of_ne (by decide) hb hs) ((h.congr hd₁).mono fun _ => .inl)
  have h₁' : Search.Answers origin (fun b => (owned b ∨ 0 :: a <:+ b) ∨ 1 :: a <:+ b) dead₂
      (p.search (0 :: a) s) fun r => (p.ways r).findSome? k :=
    (h₁.congr hd₂).mono fun _ => .inl
  obtain ⟨dead₃, hd₃, h₃⟩ := Search.Answers.choose (a := a) (by
    rintro ((hb | hb) | hb)
    · exact ha a hb List.suffix_rfl
    · exact absurd hb.length_le (by simp)
    · exact absurd hb.length_le (by simp)) h₁' h₂
  refine ⟨dead₃, fun b n hb => ?_, (h₃.mono ?_).congr_fun fun r => ?_⟩
  · have hne : b ≠ a := by
      rintro rfl
      exact ha b hb List.suffix_rfl
    rw [hd₃ b n hne, hd₂ b n (.inl hb), hd₁ b n hb]
  · rintro b (((hb | hb) | hb) | rfl)
    · exact .inl hb
    · exact .inr ((List.suffix_cons 0 a).trans hb)
    · exact .inr ((List.suffix_cons 1 a).trans hb)
    · exact .inr List.suffix_rfl
  · simp only [ways, List.findSome?_append]

lemma Faithful.group (hp : Faithful origin p) (i : Nat) :
    Faithful origin (group i p) := by
  intro a owned dead s k ha h
  obtain ⟨dead', hd, h'⟩ := hp a owned dead s k ha h
  exact ⟨dead', hd, fun r t hr ht => h'.agrees (r.enter i) t (hr.enter i) ht,
    fun r g hk => h'.uniform (r.enter i) (i :: g) hk⟩

lemma faithful_rep_bounded (cs : CharSet) (min max : Nat) (greedy : Bool) :
    Faithful origin (rep (set cs) min (some max) greedy) := by
  intro a owned dead s k ha h
  obtain ⟨dead', hd, h'⟩ := h.atMost ha cs greedy min (max - min)
  refine ⟨dead', hd, ((h'.turns cs a 0 min).mono ?_).congr_fun fun r => ?_⟩
  · rintro b (hb | ⟨i, -, rfl⟩)
    · exact .inl hb
    · exact .inr (List.suffix_cons _ _)
  · simp only [ways, findSome?_flatMap]
    rfl

/-- Turns can be counted from either end. -/
lemma turns_succ_eq (turn : Run → List Run) (n : Nat) (r : Run) :
    turns turn (n + 1) r = (turns turn n r).flatMap turn := by
  induction n generalizing r with
  | zero =>
    show (turn r).flatMap (turns turn 0) = _
    simp only [turns, List.flatMap_cons, List.flatMap_nil, List.append_nil]
    exact List.flatMap_singleton' (turn r)
  | succ n ih =>
    show (turn r).flatMap (turns turn (n + 1)) = ((turn r).flatMap (turns turn n)).flatMap turn
    rw [List.flatMap_assoc]
    exact List.flatMap_congr fun r' _ => ih r'

lemma faithful_rep_unbounded (cs : CharSet) (hcs : (set cs).isProper) (min : Nat) (greedy : Bool) :
    Faithful origin (rep (set cs) min none greedy) := by
  intro a owned dead s k ha h
  have hc : ¬ owned (0 :: a) := fun hb => ha _ hb (List.suffix_cons 0 a)
  have h' : Search.Answers origin (fun b => owned b ∨ a <:+ b)
      (Search.Answers.loopDead origin (set cs) greedy k (0 :: a) dead)
      (Search.spell cs (0 :: a) greedy s) ((set cs).loopEnd greedy k) := by
    refine (h.spell hc cs greedy).mono ?_
    rintro b (hb | rfl)
    · exact .inl hb
    · exact .inr (List.suffix_cons 0 a)
  refine ⟨Search.Answers.loopDead origin (set cs) greedy k (0 :: a) dead,
    fun b n hb => Search.Answers.loopDead_other hc hb, ?_⟩
  cases min with
  | zero =>
    have hsearch : (rep (set cs) 0 none greedy).search a s = Search.spell cs (0 :: a) greedy s := by
      funext r t
      simp [search, hcs]
    rw [hsearch]
    exact h'.congr_fun fun r => by simp [ways, turns, loopEnd]
  | succ n =>
    refine ((h'.take cs (1 :: a)).turns cs a 1 n).congr_fun fun r => ?_
    show ((turns (set cs).ways (n + 1) r).flatMap fun r =>
      upTo (set cs).ways greedy r.place.rest.length r).findSome? k = _
    rw [turns_succ_eq, findSome?_flatMap, findSome?_flatMap]
    refine findSome?_congr fun r' _ => ?_
    show ((r'.take? cs).toList).findSome? ((set cs).loopEnd greedy k) = _
    rcases r'.take? cs with _ | r'' <;> simp

lemma faithful_rep_oneOrTwo (x y z : CharSet) (hp : (oneOrTwo x y z).isProper) (greedy : Bool) :
    Faithful origin (rep (oneOrTwo x y z) 0 none greedy) := by
  intro a owned dead s k ha h
  have hc : ¬ owned (0 :: a) := fun hb => ha _ hb (List.suffix_cons 0 a)
  have hd : ¬ owned (1 :: a) := fun hb => ha _ hb (List.suffix_cons 1 a)
  refine ⟨Search.Answers.pairDead origin (oneOrTwo x y z) greedy k (0 :: a) (1 :: a) dead,
    fun b n hb => Search.Answers.pairDead_other hc hd hb, ⟨fun r t hr ht => ?_, fun r g hk => ?_⟩⟩
  · have hown : ∀ b, (owned b ∨ b = 0 :: a ∨ b = 1 :: a) → owned b ∨ a <:+ b := by
      rintro b (hb | rfl | rfl)
      · exact .inl hb
      · exact .inr (List.suffix_cons 0 a)
      · exact .inr (List.suffix_cons 1 a)
    have key := Search.Answers.many_spec (x := x) (y := y) (z := z) hc hd
      (by simp) h (r.place.rest.length + 2) r t hr (by omega)
      (.of_knows (fun b m hb => ht b m (hown b hb)) _)
    have hways : ((rep (oneOrTwo x y z) 0 none greedy).ways r).findSome? k =
        (oneOrTwo x y z).loopEnd greedy k r := by
      simp [ways, turns, loopEnd]
    have hsearch : (rep (oneOrTwo x y z) 0 none greedy).search a s r t =
        Search.many ((oneOrTwo x y z).search (1 :: a)) (fun more stop =>
          if greedy then Search.choose (0 :: a) more stop else Search.choose (0 :: a) stop more) s
          (r.place.rest.length + 2) r t := by
      unfold oneOrTwo at hp ⊢
      simp only [search, hp, if_true]
    rw [hways, hsearch]
    exact key.widen hown fun _ _ _ hb => hb
  · have hways : ∀ r : Run, ((rep (oneOrTwo x y z) 0 none greedy).ways r).findSome? k =
        (oneOrTwo x y z).loopEnd greedy k r := by
      intro r
      simp [ways, turns, loopEnd]
    rw [hways] at hk ⊢
    exact loopEnd_uniform h.uniform r g hk

lemma faithful_of_isPlain (h : p.isPlain) : Faithful origin p := by
  fun_induction isPlain p with
  | case1 => exact faithful_empty
  | case2 cs => exact faithful_set cs
  | case3 l => exact faithful_look l
  | case4 p q ihp ihq =>
    rw [Bool.and_eq_true] at h
    exact (ihp h.1).seq (ihq h.2)
  | case5 p q ihp ihq =>
    rw [Bool.and_eq_true] at h
    exact (ihp h.1).alt (ihq h.2)
  | case6 i p ih => exact (ih h).group i
  | case7 cs min max greedy =>
    cases max with
    | some max => exact faithful_rep_bounded cs min max greedy
    | none => exact faithful_rep_unbounded cs h min greedy
  | case8 x y z greedy => exact faithful_rep_oneOrTwo x y z h greedy
  | case9 => cases h

/-- **The search finds the first way**, whatever choices lie on the way there. -/
theorem match?_eq_head? (h : p.isPlain) (place : Place) :
    p.match? place = (p.ways (.start place)).head? := by
  obtain ⟨dead, -, hs⟩ := faithful_of_isPlain h [] (fun _ => False)
    (fun _ _ => False) (fun r _ => .found r) some (fun _ hb => hb.elim)
    ⟨fun r t _ _ => rfl, fun r g hk => by cases hk⟩
  have key := hs.agrees (.start place) {} (Run.on_start place) fun b n _ hb => by simp at hb
  have hhead : (p.ways (.start place)).findSome? some = (p.ways (.start place)).head? := by
    cases p.ways (.start place) <;> rfl
  rw [hhead] at key
  unfold match?
  rcases hw : (p.ways (.start place)).head? with _ | r
  · rw [hw] at key
    obtain ⟨u, hu, -⟩ := key
    rw [hu]; rfl
  · rw [hw] at key
    have key : p.search [] (fun r _ => .found r) (.start place) {} = .found r := key
    rw [key]; rfl

end Pattern

end ScanTree
