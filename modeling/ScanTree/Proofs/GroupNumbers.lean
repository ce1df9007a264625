import ScanTree.Proofs.FirstRule

/-!
The groups of an alternation belong to the rules of its state.

A rule takes as many groups as its own pattern has, and one more around it. So the group around a
pattern has the number of all groups before it, and a match has been in the group of one rule only.

Again two things can spoil this. A pattern that ends in a comment takes the bracket after it, and
then two rules share a group. And a repetition of zero times has fewer groups than its text opens.
-/

namespace ScanTree

variable {T X : Type}

/-- The number of groups that a rule takes in an alternation. -/
def Rule.groupCount (props : Pattern.Properties) (r : Rule T X) : Nat :=
  1 + (r.own props).groupCount

def groupsOf (props : Pattern.Properties) : List (Rule T X) → Nat
  | [] => 0
  | r :: rules => r.groupCount props + groupsOf props rules

variable {props : Pattern.Properties}

@[simp] lemma groupsOf_nil : groupsOf props ([] : List (Rule T X)) = 0 := rfl

@[simp] lemma groupsOf_cons (r : Rule T X) (rules : List (Rule T X)) :
    groupsOf props (r :: rules) = r.groupCount props + groupsOf props rules := rfl

variable {rules : List (Rule T X)} {r s : Rule T X} {i j : Nat}

/-- The groups of a rule end before those of the next ones begin. -/
lemma groupsOf_take_add_le (props : Pattern.Properties) (hi : rules[i]? = some r) (hij : i < j) :
    groupsOf props (rules.take i) + r.groupCount props ≤ groupsOf props (rules.take j) := by
  induction rules generalizing i j with
  | nil => cases hi
  | cons s rules ih =>
    obtain ⟨j, rfl⟩ : ∃ k, j = k + 1 := ⟨j - 1, by omega⟩
    cases i with
    | zero =>
      obtain rfl : s = r := by simpa using hi
      simp
    | succ i =>
      have := ih (by simpa using hi) (show i < j by omega)
      simp only [List.take_succ_cons, groupsOf_cons]
      omega

lemma eq_of_groupsOf_take (props : Pattern.Properties) (hi : rules[i]? = some r)
    (hj : rules[j]? = some s)
    (hlow : groupsOf props (rules.take i) ≤ groupsOf props (rules.take j))
    (hhigh : groupsOf props (rules.take j) < groupsOf props (rules.take i) + r.groupCount props) :
    j = i := by
  rcases Nat.lt_trichotomy j i with hlt | heq | hlt
  · have hbefore := groupsOf_take_add_le props hj hlt
    rw [Rule.groupCount] at hbefore
    omega
  · exact heq
  · have hafter := groupsOf_take_add_le props hi hlt
    omega

namespace Pattern

@[simp] lemma groupNumbers_renumber (f : Nat → Nat) (p : Pattern) :
    (p.renumber f).groupNumbers = p.groupNumbers.map f := by
  induction p <;> simp_all [renumber, groupNumbers]

lemma groups_of_match? {p : Pattern} {place : Place} {stop : Run}
    (h : p.match? place = some stop) : ∀ g ∈ stop.groups, g ∈ p.groupNumbers := by
  refine match?_induction (P := fun r => ∀ g ∈ r.groups, g ∈ p.groupNumbers) h ?_ ?_ ?_
  · intro g hg
    cases hg
  · intro cs r q hr hq
    obtain ⟨place, taken, groups⟩ := r
    rcases place with ⟨before, _ | ⟨c, rest⟩⟩
    · cases hq
    · simp only [Run.take?] at hq
      split_ifs at hq
      cases hq
      exact hr
  · intro i hi r hr g hg
    rcases List.mem_cons.1 hg with rfl | hg
    · exact hi
    · exact hr g hg

end Pattern

open Pattern

structure Rule.Counted (props : Properties) (r : Rule T X) : Prop where
  read : (read? r.source props).isSome
  keep : dropsGroup props r.source = false

namespace Rule.Counted

lemma opened (h : r.Counted props) : Pattern.opened props r.source = (r.own props).groupCount :=
  (groupCount_own h.read h.keep).symm

lemma groupNumbers (h : r.Counted props) :
    (r.own props).groupNumbers = List.range' 1 (r.own props).groupCount := by
  rw [← h.opened]
  exact groupNumbers_own h.read h.keep

/-- The numbers that the groups of a rule have in an alternation, when `n` is the first of them. -/
lemma groupNumbers_group (h : r.Counted props) (n : Nat) :
    (group n ((r.own props).renumber (· + n))).groupNumbers =
      List.range' n (r.groupCount props) := by
  have hnext : (List.range' 1 (r.own props).groupCount).map (· + n) =
      List.range' (n + 1) (r.own props).groupCount := by
    simp only [Nat.add_comm _ n, List.map_add_range']
  rw [Pattern.groupNumbers, groupNumbers_renumber, h.groupNumbers, hnext, Rule.groupCount,
    Nat.add_comm 1, List.range'_succ]

end Rule.Counted

lemma length_arranged (props : Properties) (n : Nat) (texts : List (List Char)) :
    (arranged props n texts).length = texts.length := by
  induction texts generalizing n with
  | nil => rfl
  | cons t ts ih => simp [arranged, ih]

section Arranged

variable (hrules : ∀ r ∈ rules, r.Counted props)

include hrules

/-- The groups of a rule have the numbers after those of the rules before it. -/
lemma getElem?_arranged (hi : rules[i]? = some r) (n : Nat) :
    (arranged props n (rules.map Rule.source))[i]? =
      some (.group (n + groupsOf props (rules.take i))
        ((r.own props).renumber (· + (n + groupsOf props (rules.take i))))) := by
  induction rules generalizing i n with
  | nil => cases hi
  | cons s rules ih =>
    rw [List.map_cons, arranged]
    cases i with
    | zero =>
      obtain rfl : s = r := by simpa using hi
      rfl
    | succ i =>
      have hnext : n + 1 + Pattern.opened props s.source = n + s.groupCount props := by
        rw [(hrules s List.mem_cons_self).opened, Rule.groupCount]
        omega
      rw [List.getElem?_cons_succ,
        ih (fun x hx => hrules x (List.mem_cons_of_mem _ hx)) (by simpa using hi), hnext,
        List.take_succ_cons, groupsOf_cons, Nat.add_assoc]

lemma groupNumbers_arranged (n : Nat) :
    (arranged props n (rules.map Rule.source)).flatMap groupNumbers =
      List.range' n (groupsOf props rules) := by
  induction rules generalizing n with
  | nil => rfl
  | cons r rules ih =>
    have hr := hrules r List.mem_cons_self
    have hnext : n + 1 + Pattern.opened props r.source = n + r.groupCount props := by
      rw [hr.opened, Rule.groupCount]
      omega
    rw [List.map_cons, arranged, List.flatMap_cons, hnext,
      ih fun x hx => hrules x (List.mem_cons_of_mem _ hx), groupsOf_cons, ← List.range'_append_1]
    exact congrArg (· ++ _) (hr.groupNumbers_group n)

/-- The first text that matches is that of a rule, and its number that of the group around it. -/
lemma exists_of_pickOwn? {place : Place} {n k : Nat} {own : Run}
    (h : pickOwn? props place n (rules.map Rule.source) = some (k, own)) :
    ∃ i r, rules[i]? = some r ∧ (r.own props).match? place = some own ∧
      k = n + groupsOf props (rules.take i) := by
  induction rules generalizing n with
  | nil => cases h
  | cons r rules ih =>
    rw [List.map_cons, pickOwn?] at h
    rcases hmatch : (Pattern.own props r.source).match? place with _ | stop
    · rw [hmatch] at h
      obtain ⟨i, s, hi, hs, rfl⟩ := ih (fun x hx => hrules x (List.mem_cons_of_mem _ hx)) h
      refine ⟨i + 1, s, by simpa using hi, hs, ?_⟩
      rw [(hrules r List.mem_cons_self).opened, List.take_succ_cons, groupsOf_cons,
        Rule.groupCount]
      omega
    · rw [hmatch] at h
      cases h
      exact ⟨0, r, rfl, hmatch, by simp⟩

end Arranged

lemma groups_copy (hr : r.Counted props) {place : Place} {own : Run}
    (hmatch : (r.own props).match? place = some own) (n : Nat) :
    ∀ g ∈ (own.copy (· + n) [n]).groups, n ≤ g ∧ g < n + r.groupCount props := by
  intro g hg
  refine ⟨own.le_of_mem_copy n g hg, ?_⟩
  rcases List.mem_append.1 hg with hg | hg
  · obtain ⟨k, hk, rfl⟩ := List.mem_map.1 hg
    have hk := groups_of_match? hmatch k hk
    rw [hr.groupNumbers, List.mem_range'_1] at hk
    rw [Rule.groupCount]
    omega
  · rw [List.mem_singleton.1 hg, Rule.groupCount]
    omega

namespace State

variable {name : String} {st : State T X} {p : Pattern}

lemma length_edgesFrom {index n : Nat} {edges : List (Edge T X)}
    (h : edgesFrom props name index n rules = .ok edges) : edges.length = rules.length := by
  induction rules generalizing index n edges with
  | nil =>
    cases h
    rfl
  | cons s rules ih =>
    obtain ⟨-, rest, hrest, rfl⟩ := edgesFrom_cons h
    rw [List.length_cons, List.length_cons, ih hrest]

/-- The compiler gives the edge of a rule the number after the groups of the rules before it. -/
lemma getElem?_edgesFrom {index n : Nat} {edges : List (Edge T X)}
    (h : edgesFrom props name index n rules = .ok edges) (hi : rules[i]? = some r) :
    edges[i]? = some ⟨n + groupsOf props (rules.take i), r.emit, r.goto⟩ := by
  induction rules generalizing i index n edges with
  | nil => cases hi
  | cons s rules ih =>
    obtain ⟨-, rest, hrest, rfl⟩ := edgesFrom_cons h
    cases i with
    | zero =>
      obtain rfl : s = r := by simpa using hi
      rfl
    | succ i =>
      rw [List.getElem?_cons_succ, ih hrest (by simpa using hi), List.take_succ_cons, groupsOf_cons,
        Rule.groupCount, ← Nat.add_assoc, ← Nat.add_assoc]

/-- The groups of an alternation are those that the edges of the state take them for. -/
structure Aligned (props : Properties) (st : State T X) (rules : List (Rule T X)) (p : Pattern) :
    Prop where
  groupCount : p.groupCount = groupsOf props rules
  groupNumbers : p.groupNumbers = List.range' 1 (groupsOf props rules)
  length : st.edges.length = rules.length
  /-- The group of an edge is around the pattern of its rule. -/
  wrapped : ∃ ps, p = anyOf ps ∧ ps.length = rules.length ∧
    ∀ (i : Nat) (r : Rule T X), rules[i]? = some r → ∃ n, st.edges[i]? = some ⟨n, r.emit, r.goto⟩ ∧
      ps[i]? = some (.group n ((r.own props).renumber (· + n)))
  /-- A match is that of one rule, and of the groups of the edges it has been in that of this rule
  only. -/
  entered : ∀ place stop, p.match? place = some stop → ∃ (i : Nat) (r : Rule T X) (own : Run),
    rules[i]? = some r ∧ (r.own props).match? place = some own ∧ stop.place = own.place ∧
      stop.taken = own.taken ∧ ∀ (j : Nat) (edge : Edge T X), st.edges[j]? = some edge →
        (edge.group ∈ stop.groups ↔ j = i)

/-- **Alignment**: the numbers that the compiler counts are those of the alternation. -/
lemma aligned_of_compile (h : compile props name rules = .ok st)
    (hrules : ∀ r ∈ rules, r.Counted props) :
    st.Aligned props rules (anyOf (arranged props 1 (rules.map Rule.source))) := by
  obtain ⟨-, hedges, -⟩ := cases_of_compile h
  have hnumbers : (anyOf (arranged props 1 (rules.map Rule.source))).groupNumbers =
      List.range' 1 (groupsOf props rules) := by
    rw [groupNumbers_anyOf, groupNumbers_arranged hrules]
  have hedge : ∀ (i : Nat) (r : Rule T X), rules[i]? = some r →
      st.edges[i]? = some ⟨1 + groupsOf props (rules.take i), r.emit, r.goto⟩ :=
    fun i r hi => getElem?_edgesFrom hedges hi
  refine ⟨?_, hnumbers, length_edgesFrom hedges, ⟨_, rfl, ?_, ?_⟩, ?_⟩
  · rw [groupCount_eq_length, hnumbers, List.length_range']
  · rw [length_arranged, List.length_map]
  · exact fun i r hi => ⟨_, hedge i r hi, getElem?_arranged hrules hi 1⟩
  · intro place stop hstop
    rw [match?_anyOf_arranged, Option.map_eq_some_iff] at hstop
    obtain ⟨⟨k, own⟩, hpick, rfl⟩ := hstop
    obtain ⟨i, r, hi, hmatch, rfl⟩ := exists_of_pickOwn? hrules hpick
    have hr := hrules r (List.mem_of_getElem? hi)
    refine ⟨i, r, own, hi, hmatch, rfl, rfl, fun j edge hj => ⟨fun hmem => ?_, ?_⟩⟩
    · obtain ⟨s, hs⟩ : ∃ s, rules[j]? = some s := by
        have hlt := (List.getElem?_eq_some_iff.1 hj).1
        rw [length_edgesFrom hedges] at hlt
        exact ⟨_, List.getElem?_eq_getElem hlt⟩
      rw [hedge j s hs] at hj
      cases hj
      obtain ⟨hlow, hhigh⟩ := groups_copy hr hmatch _ _ hmem
      simp only at hlow hhigh
      exact eq_of_groupsOf_take props hi hs (by omega) (by omega)
    · rintro rfl
      rw [hedge j r hi] at hj
      cases hj
      exact own.mem_copy _

/-- A match goes to the edge of the rule whose pattern it is a match of. -/
lemma Aligned.match? {text : List Char} (h : st.Aligned props rules p)
    (halt : st.alternation = some (text, p)) {place : Place} {m : Match T X}
    (hm : st.match? place = some m) :
    ∃ r own, rules[m.index]? = some r ∧ st.edges[m.index]? = some m.edge ∧
      (r.own props).match? place = some own ∧ m.text = place.rest.take own.taken ∧
        m.after = own.place := by
  simp only [State.match?, halt, Option.bind_eq_bind, Option.bind_some,
    Option.bind_eq_some_iff] at hm
  obtain ⟨stop, hstop, ⟨edge, index⟩, hfind, heq⟩ := hm
  cases heq
  have hindex : st.edges[index]? = some edge := by
    have hmem := List.mem_of_find?_eq_some hfind
    exact List.mem_zipIdx_iff_getElem?.1 hmem
  have hgroup : edge.group ∈ stop.groups := by
    simpa using List.find?_some hfind
  obtain ⟨i, r, own, hi, hmatch, hplace, htaken, hedges⟩ := h.entered place stop hstop
  obtain rfl : index = i := (hedges index edge hindex).1 hgroup
  exact ⟨r, own, hi, hindex, hmatch, by rw [htaken], hplace⟩

end State

namespace Grammar

variable {table : RuleTable T X} {g : Grammar T X} {name : String}

/-- **Group numbers point at the right rule**: the alternation of a declared state has the groups
of its rules and one around each, the edge of a rule has the number of the group around its
pattern, and what the state matches goes to the edge of a rule that matches it on its own. This is
so with any tables of properties. No pattern may end in a comment that takes the bracket after it,
nor repeat a group zero times. -/
theorem groups_point_at_rules {props : Properties} (hg : compile table props = .ok g)
    {rules : List (Rule T X)} (hstate : table.reverse.lookup name = some rules)
    (htakes : ∀ r ∈ rules, takesBracket props r.source = false)
    (hkeep : ∀ r ∈ rules, dropsGroup props r.source = false) :
    ∃ st, g.state? name = some st ∧
      (rules = [] ∧ st.edges = [] ∧ st.alternation = none ∨
        ∃ p, st.alternation = some (State.join (rules.map Rule.source), p) ∧
          st.Aligned props rules p) ∧
      ∀ input position m, st.matchAt? input position = some m →
        ∃ r, rules[m.index]? = some r ∧ st.edges[m.index]? = some m.edge ∧
          r.matchAt? props input position = some (m.text, m.after) := by
  obtain ⟨st, hst, hcompile⟩ := state?_of_compile hg hstate
  obtain ⟨-, hedges, -⟩ := State.cases_of_compile hcompile
  have hread := State.isSome_of_edgesFrom hedges
  have haligned := State.aligned_of_compile hcompile fun r hr => ⟨hread r hr, hkeep r hr⟩
  refine ⟨st, hst, ?_⟩
  rcases State.alternation_of_compile hcompile htakes with ⟨rfl, hnone⟩ | ⟨-, hsome⟩
  · have hnil : st.edges = [] := List.length_eq_zero_iff.1 haligned.length
    refine ⟨.inl ⟨rfl, hnil, hnone⟩, fun input position m hm => ?_⟩
    obtain ⟨place, -, hm⟩ := Option.bind_eq_some_iff.1 hm
    simp [State.match?, hnone] at hm
  · refine ⟨.inr ⟨_, hsome, haligned⟩, fun input position m hm => ?_⟩
    obtain ⟨place, hplace, hm⟩ := Option.bind_eq_some_iff.1 hm
    obtain ⟨r, own, hr, hedge, hmatch, htext, hafter⟩ := haligned.match? hsome hm
    refine ⟨r, hr, hedge, ?_⟩
    rw [Rule.matchAt?, hplace, Option.bind_some, hmatch, htext, hafter]
    rfl

def groupedRules : List (Rule Nat Nat) :=
  [⟨some "(?x) (a|b) # a letter\n", .const 0, .stay⟩,
    ⟨some "\\P\x7bASCII_Hex_Digit\x7d(?:d)?", .const 1, .stay⟩,
    ⟨some "(?P<word>e(f)*)", .const 2, .stay⟩]

/-- Two of the rules have groups of their own, and the first one has a comment that ends. -/
theorem groups_point_at_grouped : ∃ g st p, compile [("main", groupedRules)] hexDigits = .ok g ∧
    g.state? "main" = some st ∧ st.Aligned hexDigits groupedRules p ∧ p.groupCount = 6 := by
  have hcompiled : (compile [("main", groupedRules)] hexDigits).toOption.isSome = true := by
    decide +kernel
  obtain ⟨g, hg⟩ := exists_ok_of_isSome hcompiled
  obtain ⟨st, hst, halternation, -⟩ := groups_point_at_rules hg
    (show [("main", groupedRules)].reverse.lookup "main" = some groupedRules from rfl)
    (by decide +kernel) (by decide +kernel)
  rcases halternation with ⟨hnil, -⟩ | ⟨p, -, haligned⟩
  · cases hnil
  · exact ⟨g, st, p, hg, hst, haligned, haligned.groupCount.trans (by decide +kernel)⟩

/-- A rule that ends in a comment, one that ends the comment, and one more. -/
def commentRules : List (Rule Nat Nat) :=
  [⟨some "(?x)a#", .const 0, .stay⟩, ⟨some "b\nc", .const 1, .stay⟩, ⟨some "d", .const 2, .stay⟩]

/-- The alternation has one group less than the rules have, and the match of the last rule has the
edge of the one before it. -/
theorem comment_hides_group :
    groupsOf {} commentRules = 3 ∧
    (commentRules.map fun r => r.matchAt? {} ['d'] 0) =
      [none, none, some (['d'], ⟨some 'd', []⟩)] ∧
    ∃ g st a m, compile [("main", commentRules)] = .ok g ∧ g.state? "main" = some st ∧
      st.alternation = some a ∧ a.2.groupCount = 2 ∧ st.matchAt? ['d'] 0 = some m ∧
        m.index = 1 := by
  refine ⟨by decide +kernel, by decide +kernel, ?_⟩
  have hrun : ((compile [("main", commentRules)]).toOption.bind fun g =>
      (g.state? "main").bind fun st => (st.matchAt? ['d'] 0).bind fun m =>
        st.alternation.map fun a => (a.2.groupCount, m.index)) = some (2, 1) := by
    decide +kernel
  obtain ⟨g, st, m, hg, hst, hm, halternation⟩ := exists_match_of_eval hrun
  obtain ⟨a, ha, heq⟩ := Option.map_eq_some_iff.1 halternation
  obtain ⟨hcount, hindex⟩ := Prod.mk.inj heq
  exact ⟨g, st, a, m, hg, hst, ha, hcount, hm, hindex⟩

end Grammar

end ScanTree
