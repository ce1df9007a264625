import ScanTree.Grammar
import ScanTree.Proofs.Pattern.FirstWay

/-!
The alternation of the rules of a state picks the first rule whose own pattern matches.

This is for rules whose patterns are plain and have no groups of their own. Each rule then has
one group, and rule number `i` has group number `i + 1`.
-/

namespace ScanTree

namespace Pattern

/-- A group around each of some patterns, numbered from `n` on. -/
def numbered : Nat → List Pattern → List Pattern
  | _, [] => []
  | n, p :: ps => group n p :: numbered (n + 1) ps

def firstMatch? (place : Place) : Nat → List Pattern → Option (Nat × Run)
  | _, [] => none
  | n, p :: ps => ((p.match? place).map (n, ·)).or (firstMatch? place (n + 1) ps)

lemma isPlain_anyOf {ps : List Pattern} (h : ∀ p ∈ ps, p.isPlain) : (anyOf ps).isPlain := by
  induction ps with
  | nil => rfl
  | cons p ps ih =>
    have hp := h p List.mem_cons_self
    have ih := ih fun q hq => h q (List.mem_cons_of_mem _ hq)
    cases ps with
    | nil => exact hp
    | cons q qs => simpa [anyOf, isPlain, hp] using ih

lemma ways_anyOf_cons (p : Pattern) (ps : List Pattern) (r : Run) :
    (anyOf (p :: ps)).ways r = p.ways r ++ (anyOf ps).ways r := by
  cases ps with
  | nil =>
    have : (anyOf []).ways r = [] := by
      simp only [anyOf, ways, Run.take?]
      rcases r.place.rest with _ | ⟨c, cs⟩ <;> rfl
    rw [this, List.append_nil]
    rfl
  | cons q qs => rfl

/-- **First match**: the alternation of patterns with a group around each ends where the first
pattern that matches ends, and has been in its group only. -/
lemma match?_anyOf_numbered (ps : List Pattern) (hplain : ∀ p ∈ ps, p.isPlain)
    (hgroups : ∀ p ∈ ps, p.groupCount = 0) (place : Place) (n : Nat) :
    (anyOf (numbered n ps)).match? place =
      (firstMatch? place n ps).map fun m => { m.2 with groups := [m.1] } := by
  have hnum : ∀ p ∈ numbered n ps, p.isPlain := by
    clear hgroups
    induction ps generalizing n with
    | nil => simp [numbered]
    | cons p ps ih =>
      intro q hq
      rcases List.mem_cons.1 hq with rfl | hq
      · exact hplain p List.mem_cons_self
      · exact ih (fun x hx => hplain x (List.mem_cons_of_mem _ hx)) (n + 1) q hq
  rw [match?_eq_head? (isPlain_anyOf hnum)]
  clear hnum
  induction ps generalizing n with
  | nil =>
    simp only [numbered, anyOf, ways, Run.take?, firstMatch?]
    rcases (Run.start place).place.rest with _ | ⟨c, cs⟩ <;> rfl
  | cons p ps ih =>
    have ih := ih (fun x hx => hplain x (List.mem_cons_of_mem _ hx))
      (fun x hx => hgroups x (List.mem_cons_of_mem _ hx)) (n + 1)
    rw [numbered, ways_anyOf_cons, List.head?_append, ih, firstMatch?,
      match?_eq_head? (hplain p List.mem_cons_self)]
    have hways : (group n p).ways (.start place) =
        (p.ways (.start place)).map fun x => { x with groups := [n] } :=
      ways_regroup (g := fun _ => [n]) (.inl (hgroups p List.mem_cons_self)) (.start place)
    rw [hways]
    rcases p.ways (.start place) with _ | ⟨x, xs⟩ <;> simp

end Pattern

variable {T X : Type}

/-- The pattern that a rule has on its own, where no properties are known. -/
def Rule.ownPattern (r : Rule T X) : Pattern := (Pattern.read? r.source).getD .empty

/-- The first rule whose own pattern matches at a place, and the end of the match. -/
def pick? (place : Place) : List (Rule T X) → Option (Rule T X × Run)
  | [] => none
  | r :: rs => ((r.ownPattern.match? place).map (r, ·)).or (pick? place rs)

lemma mem_of_pick? {place : Place} {rules : List (Rule T X)} {r : Rule T X} {stop : Run}
    (h : pick? place rules = some (r, stop)) :
    r ∈ rules ∧ r.ownPattern.match? place = some stop := by
  induction rules with
  | nil => cases h
  | cons x rs ih =>
    unfold pick? at h
    rcases hm : x.ownPattern.match? place with _ | stop'
    · rw [hm] at h
      obtain ⟨hr, hmatch⟩ := ih (by simpa using h)
      exact ⟨List.mem_cons_of_mem _ hr, hmatch⟩
    · rw [hm] at h
      simp only [Option.map_some, Option.some_or, Option.some.injEq, Prod.mk.injEq] at h
      obtain ⟨rfl, rfl⟩ := h
      exact ⟨List.mem_cons_self, hm⟩

namespace State

def plainEdges : Nat → List (Rule T X) → List (Edge T X)
  | _, [] => []
  | n, r :: rs => ⟨n, r.emit, r.goto⟩ :: plainEdges (n + 1) rs

/-- The state that rules without groups of their own are compiled to. -/
def assembled (name : String) (rules : List (Rule T X)) : State T X :=
  ⟨name, some (join (rules.map Rule.source),
    Pattern.anyOf (Pattern.numbered 1 (rules.map Rule.ownPattern))), plainEdges 1 rules⟩

/-- Whether rules have plain patterns without groups, which together read as they do alone. -/
def isRegular (rules : List (Rule T X)) : Bool :=
  !rules.isEmpty &&
    (rules.all fun r => (Pattern.read? r.source).isSome && r.ownPattern.isPlain &&
      r.ownPattern.groupCount == 0) &&
    Pattern.read? (join (rules.map Rule.source)) ==
      some (Pattern.anyOf (Pattern.numbered 1 (rules.map Rule.ownPattern)))

variable {rules : List (Rule T X)}

lemma isRegular_iff : isRegular rules = true ↔ rules ≠ [] ∧
    (∀ r ∈ rules, (Pattern.read? r.source).isSome ∧ r.ownPattern.isPlain ∧
      r.ownPattern.groupCount = 0) ∧
    Pattern.read? (join (rules.map Rule.source)) =
      some (Pattern.anyOf (Pattern.numbered 1 (rules.map Rule.ownPattern))) := by
  simp [isRegular, and_assoc]

lemma isPlain_of_mem (h : isRegular rules) {r : Rule T X} (hr : r ∈ rules) :
    r.ownPattern.isPlain := by
  obtain ⟨-, hrules, -⟩ := isRegular_iff.1 h
  exact (hrules r hr).2.1

lemma edgesFrom_eq (h : ∀ r ∈ rules, (Pattern.read? r.source).isSome ∧ r.ownPattern.isPlain ∧
      r.ownPattern.groupCount = 0) (name : String) (index group : Nat) :
    edgesFrom {} name index group rules = .ok (plainEdges group rules) := by
  induction rules generalizing index group with
  | nil => rfl
  | cons r rs ih =>
    obtain ⟨hread, -, hcount⟩ := h r List.mem_cons_self
    obtain ⟨p, hp⟩ := Option.isSome_iff_exists.1 hread
    have hown : r.ownPattern = p := by rw [Rule.ownPattern, hp]; rfl
    rw [hown] at hcount
    have ih := ih (fun x hx => h x (List.mem_cons_of_mem _ hx)) (index + 1) (group + 1)
    simp only [edgesFrom, hp, hcount, Nat.add_zero, ih]
    rfl

lemma compile_eq_assembled (h : isRegular rules) (name : String) :
    compile {} name rules = .ok (assembled name rules) := by
  obtain ⟨hne, hrules, hread⟩ := isRegular_iff.1 h
  have hempty : rules.isEmpty = false := by simpa using hne
  simp only [compile, edgesFrom_eq hrules, hempty, hread]
  rfl

lemma firstMatch?_map (place : Place) (n : Nat) (rules : List (Rule T X)) :
    Pattern.firstMatch? place n (rules.map Rule.ownPattern) = none ∧ pick? place rules = none ∨
    ∃ i r stop, Pattern.firstMatch? place n (rules.map Rule.ownPattern) = some (n + i, stop) ∧
      pick? place rules = some (r, stop) ∧ rules[i]? = some r := by
  induction rules generalizing n with
  | nil => exact .inl ⟨rfl, rfl⟩
  | cons r rs ih =>
    simp only [List.map_cons, Pattern.firstMatch?, pick?]
    rcases hm : r.ownPattern.match? place with _ | stop
    · rcases ih (n + 1) with ⟨h₁, h₂⟩ | ⟨i, r', stop, h₁, h₂, hi⟩
      · exact .inl ⟨by simpa using h₁, by simpa using h₂⟩
      · refine .inr ⟨i + 1, r', stop, ?_, by simpa using h₂, by simpa using hi⟩
        rw [show n + (i + 1) = n + 1 + i by omega]
        simpa using h₁
    · exact .inr ⟨0, r, stop, by simp, by simp, by simp⟩

lemma find?_plainEdges (rules : List (Rule T X)) (n k i : Nat) {r : Rule T X}
    (h : rules[i]? = some r) :
    ((plainEdges n rules).zipIdx k).find? (fun e => [n + i].contains e.1.group) =
      some (⟨n + i, r.emit, r.goto⟩, k + i) := by
  induction rules generalizing n k i with
  | nil => simp at h
  | cons s rs ih =>
    cases i with
    | zero =>
      simp only [List.getElem?_cons_zero, Option.some.injEq] at h
      subst h
      simp [plainEdges]
    | succ i =>
      have := ih (n + 1) (k + 1) i (by simpa using h)
      rw [show n + (i + 1) = n + 1 + i by omega, show k + (i + 1) = k + 1 + i by omega, ← this]
      simp only [plainEdges, List.zipIdx_cons]
      rw [List.find?_cons_of_neg]
      simp
      omega

/-- What a state matches is what the first rule with a match does. -/
lemma match?_assembled (h : isRegular rules) (name : String) (place : Place) :
    match pick? place rules with
    | none => (assembled name rules).match? place = none
    | some (r, stop) => ∃ m, (assembled name rules).match? place = some m ∧
        m.edge.emit = r.emit ∧ m.edge.goto = r.goto ∧ m.text = place.rest.take stop.taken ∧
        m.after = stop.place := by
  obtain ⟨-, hrules, -⟩ := isRegular_iff.1 h
  have hmatch := Pattern.match?_anyOf_numbered (rules.map Rule.ownPattern)
    (by simpa using fun r hr => (hrules r hr).2.1) (by simpa using fun r hr => (hrules r hr).2.2)
    place 1
  rcases firstMatch?_map place 1 rules with ⟨h₁, h₂⟩ | ⟨i, r, stop, h₁, h₂, hi⟩
  · rw [h₂]
    simp [match?, assembled, hmatch, h₁]
  · rw [h₂]
    have hfind := find?_plainEdges rules 1 0 i hi
    refine ⟨⟨i, ⟨1 + i, r.emit, r.goto⟩, place.rest.take stop.taken, stop.place⟩, ?_, rfl, rfl,
      rfl, rfl⟩
    rw [h₁] at hmatch
    simp only [match?, assembled, Option.bind_eq_bind, Option.bind_some]
    rw [hmatch, Option.map_some, Option.bind_some, hfind]
    simp

end State

namespace Grammar

variable {table : RuleTable T X}

lemma place_of_not_mem {st : State T X} {states : List (State T X)}
    (h : st.name ∉ states.map State.name) : place st states = states ++ [st] := by
  induction states with
  | nil => rfl
  | cons s ss ih =>
    simp only [List.map_cons, List.mem_cons, not_or] at h
    rw [place, if_neg (Ne.symm h.1), ih h.2, List.cons_append]

lemma compile_eq_assembled (hrules : ∀ e ∈ table, State.isRegular e.2)
    (hnames : (table.map Prod.fst).Nodup) :
    compile table = .ok ⟨table.map fun e => State.assembled e.1 e.2⟩ := by
  have key : ∀ states : List (State T X), (∀ e ∈ table, e.1 ∉ states.map State.name) →
      table.foldlM (fun states e => (place · states) <$> State.compile {} e.1 e.2) states =
        .ok (states ++ table.map fun e => State.assembled e.1 e.2) := by
    induction table with
    | nil => intro states _; simp; rfl
    | cons e es ih =>
      intro states hstates
      rw [List.map_cons, List.nodup_cons] at hnames
      have hplace : place (State.assembled e.1 e.2) states =
          states ++ [State.assembled e.1 e.2] :=
        place_of_not_mem (hstates e List.mem_cons_self)
      rw [List.foldlM_cons, State.compile_eq_assembled (hrules e List.mem_cons_self)]
      show List.foldlM _ (place (State.assembled e.1 e.2) states) es = _
      rw [hplace, ih (fun x hx => hrules x (List.mem_cons_of_mem _ hx)) hnames.2]
      · simp
      · intro x hx
        simp only [List.map_append, List.map_cons, List.map_nil, List.mem_append,
          List.mem_singleton, not_or]
        refine ⟨hstates x (List.mem_cons_of_mem _ hx), fun he => hnames.1 ?_⟩
        have he : x.1 = e.1 := he
        rw [← he]
        exact List.mem_map_of_mem hx
  rw [compile, key [] (by simp)]
  rfl

end Grammar

end ScanTree
