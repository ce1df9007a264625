import ScanTree.Proofs.Alternation
import ScanTree.Proofs.Pattern.Copy
import ScanTree.Proofs.Pattern.Numbering

/-!
The first rule that matches wins.

What a state matches at a place is what its first rule with a match there does on its own, groups,
flags and names in the patterns notwithstanding. Two things can spoil this. A pattern that switches
on the skipping of comments may hide the bracket after it. And the compiler counts groups in the
pattern of a rule and not in its text, so that a repetition of zero times shifts the edges of later
rules.
-/

namespace ScanTree

lemma Run.mem_copy (r : Run) (n : Nat) : n ∈ (r.copy (· + n) [n]).groups := by simp [copy]

lemma Run.le_of_mem_copy (r : Run) (n : Nat) : ∀ g ∈ (r.copy (· + n) [n]).groups, n ≤ g := by
  intro g hg
  rcases List.mem_append.1 hg with hg | hg
  · obtain ⟨k, -, rfl⟩ := List.mem_map.1 hg
    exact Nat.le_add_left n k
  · exact (List.mem_singleton.1 hg).ge

namespace Pattern

variable {props : Properties}

/-- The first text whose own pattern matches at a place, by the number of its group, and the end of
the match. -/
def pickOwn? (props : Properties) (place : Place) : Nat → List (List Char) → Option (Nat × Run)
  | _, [] => none
  | n, t :: ts =>
    (((own props t).match? place).map (n, ·)).or (pickOwn? props place (n + 1 + opened props t) ts)

section Search

variable {place : Place} {t : Tried} {base : Address}

def arrive : Search := fun r _ => .found r

/-- Where no choice has been made, the search for a copy comes to the end of the match. -/
lemma search_copy (place : Place) (f : Nat → Nat) (outer : List Nat) (p : Pattern)
    (hfresh : ∀ a n, t.has (a ++ base) n = false) :
    (∃ stop, p.match? place = some stop ∧
      (p.renumber f).search base arrive ((Run.start place).copy f outer) t =
        .found (stop.copy f outer)) ∨
    p.match? place = none ∧ ∃ t',
      (p.renumber f).search base arrive ((Run.start place).copy f outer) t = .failed t' ∧
        ∀ b n, ¬ base <:+ b → t'.has b n = t.has b n := by
  have hnext : Search.Copies f outer (fun _ => True) base t arrive arrive :=
    fun r _ _ hr _ => ⟨hr, rfl⟩
  have hstart : Tried.Copies base t {} t := ⟨fun a n => by simp [hfresh], fun b n _ => rfl⟩
  have key := p.search_copies (fun _ _ _ _ _ => trivial) (fun _ _ _ _ => trivial) [] hnext
    (.start place) {} t trivial hstart
  rw [List.nil_append] at key
  have hmatch : p.match? place = (p.search [] arrive (.start place) {}).run? := rfl
  rw [hmatch]
  rcases hs : p.search [] arrive (.start place) {} with stop | u
  · rw [hs] at key
    exact .inl ⟨stop, rfl, key.2⟩
  · rw [hs] at key
    obtain ⟨u', hu', hcopies⟩ := key
    exact .inr ⟨rfl, u', hu', hcopies.other⟩

lemma fresh_below (hfresh : ∀ a n, t.has (a ++ base) n = false) (taken step : Nat) (a : Address)
    (n : Nat) : (t.add base taken).has (a ++ step :: base) n = false := by
  have hne : a ++ step :: base ≠ base := fun h => by
    have := congrArg List.length h
    simp at this
    omega
  have hold := hfresh (a ++ [step]) n
  rw [List.append_assoc, List.singleton_append] at hold
  simp [Tried.has_add, hne, hold]

/-- **Alternatives** are tried in order, each as if it were alone. -/
lemma search_anyOf_arranged (texts : List (List Char)) (n : Nat)
    (hfresh : ∀ a k, t.has (a ++ base) k = false) :
    ((anyOf (arranged props n texts)).search base arrive (.start place) t).run? =
      (pickOwn? props place n texts).map fun m => m.2.copy (· + m.1) [m.1] := by
  induction texts generalizing n t base with
  | nil =>
    simp only [arranged, anyOf, search, Run.take?, pickOwn?]
    rcases (Run.start place).place.rest with _ | ⟨c, cs⟩ <;> rfl
  | cons u us ih =>
    rcases us with _ | ⟨v, vs⟩
    · show (((own props u).renumber (· + n)).search base arrive
        ((Run.start place).copy (· + n) [n]) t).run? = _
      rcases search_copy place (· + n) [n] (own props u) hfresh with
        ⟨stop, hmatch, hsearch⟩ | ⟨hmatch, t', hsearch, -⟩
      · simp [pickOwn?, hmatch, hsearch, Finding.run?]
      · simp [pickOwn?, hmatch, hsearch, Finding.run?]
    · have hhas : t.has base (Run.start place).taken = false := hfresh [] _
      show (Search.choose base
        (fun r t => ((own props u).renumber (· + n)).search (0 :: base) arrive
          (r.enter n) t)
        ((anyOf (arranged props (n + 1 + opened props u) (v :: vs))).search (1 :: base) arrive)
          (.start place) t).run? = _
      simp only [Search.choose, hhas, Bool.false_eq_true, if_false]
      rcases search_copy place (· + n) [n] (own props u) (fresh_below hfresh 0 0) with
        ⟨stop, hmatch, hsearch⟩ | ⟨hmatch, t', hsearch, hother⟩
      · have hsearch : ((own props u).renumber (· + n)).search (0 :: base) arrive
            ((Run.start place).enter n) (t.add base (Run.start place).taken) = _ := hsearch
        simp [pickOwn?, hmatch, hsearch, Finding.run?, Finding.orElse]
      · have hsearch : ((own props u).renumber (· + n)).search (0 :: base) arrive
            ((Run.start place).enter n) (t.add base (Run.start place).taken) = _ := hsearch
        -- what the first alternative has tried is not below the address of the others
        have hfresh' : ∀ a k, t'.has (a ++ 1 :: base) k = false := fun a k => by
          rw [hother, fresh_below hfresh]
          rintro ⟨b, hb⟩
          cases (List.append_inj' hb rfl).2
        rw [hsearch, pickOwn?, hmatch]
        exact ih (n + 1 + opened props u) hfresh'

lemma match?_anyOf_arranged (texts : List (List Char)) (n : Nat) (place : Place) :
    (anyOf (arranged props n texts)).match? place =
      (pickOwn? props place n texts).map fun m => m.2.copy (· + m.1) [m.1] :=
  search_anyOf_arranged texts n (by simp)

end Search

/-- The number of the next group after those of some texts. -/
def groupAfter (props : Properties) : Nat → List (List Char) → Nat
  | n, [] => n
  | n, t :: ts => groupAfter props (n + 1 + opened props t) ts

lemma le_groupAfter (props : Properties) (n : Nat) (ts : List (List Char)) :
    n ≤ groupAfter props n ts := by
  induction ts generalizing n with
  | nil => exact Nat.le_refl n
  | cons t ts ih => exact Nat.le_trans (by omega) (ih (n + 1 + opened props t))

end Pattern

open Pattern

variable {T X : Type}

def Rule.own (props : Properties) (r : Rule T X) : Pattern := Pattern.own props r.source

variable {props : Properties} {rules : List (Rule T X)} {place : Place} {i : Nat} {r : Rule T X}

lemma pickOwn?_eq_none (h : ∀ r ∈ rules, (r.own props).match? place = none) (n : Nat) :
    pickOwn? props place n (rules.map Rule.source) = none := by
  induction rules generalizing n with
  | nil => rfl
  | cons r rs ih =>
    have hr : (own props r.source).match? place = none := h r List.mem_cons_self
    rw [List.map_cons, pickOwn?, hr]
    exact ih (fun x hx => h x (List.mem_cons_of_mem _ hx)) _

lemma pickOwn?_eq_some {stop : Run} (hi : rules[i]? = some r)
    (hmatch : (r.own props).match? place = some stop)
    (hearlier : ∀ s ∈ rules.take i, (s.own props).match? place = none) (n : Nat) :
    pickOwn? props place n (rules.map Rule.source) =
      some (groupAfter props n ((rules.take i).map Rule.source), stop) := by
  induction rules generalizing i n with
  | nil => cases hi
  | cons s rs ih =>
    rcases i with _ | i
    · obtain rfl : s = r := by simpa using hi
      have hmatch : (own props s.source).match? place = some stop := hmatch
      rw [List.map_cons, pickOwn?, hmatch]
      rfl
    · have hs : (own props s.source).match? place = none := hearlier s (by simp)
      rw [List.map_cons, pickOwn?, hs]
      exact ih (by simpa using hi) (fun x hx => hearlier x (by simp [hx])) _

namespace State

lemma edgesFrom_cons {name : String} {index n : Nat} {edges : List (Edge T X)}
    (h : edgesFrom props name index n (r :: rules) = .ok edges) : (read? r.source props).isSome ∧
      ∃ rest, edgesFrom props name (index + 1) (n + 1 + (r.own props).groupCount) rules = .ok rest ∧
        edges = ⟨n, r.emit, r.goto⟩ :: rest := by
  rcases hp : read? r.source props with _ | p
  · simp only [edgesFrom, hp] at h
    cases h
  · have hown : r.own props = p := by rw [Rule.own, own, hp, Option.getD_some]
    simp only [edgesFrom, hp] at h
    rcases hrest : edgesFrom props name (index + 1) (n + 1 + p.groupCount) rules with e | rest
    · rw [hrest] at h
      cases h
    · rw [hrest] at h
      cases h
      exact ⟨rfl, rest, by rw [hown, hrest], rfl⟩

lemma isSome_of_edgesFrom {name : String} {index group : Nat} {edges : List (Edge T X)}
    (h : edgesFrom props name index group rules = .ok edges) :
    ∀ r ∈ rules, (read? r.source props).isSome := by
  induction rules generalizing index group edges with
  | nil => simp
  | cons r rs ih =>
    obtain ⟨hread, rest, hrest, -⟩ := edgesFrom_cons h
    intro x hx
    rcases List.mem_cons.1 hx with rfl | hx
    · exact hread
    · exact ih hrest x hx

/-- Unless groups are dropped before it, the edge of a rule has the number of the group around its
pattern, and no edge before it has a number as high as that. -/
lemma find?_edgesFrom {name : String} {index n : Nat} {edges : List (Edge T X)}
    (h : edgesFrom props name index n rules = .ok edges) (hi : rules[i]? = some r)
    (hkeep : ∀ s ∈ rules.take i, dropsGroup props s.source = false) {groups : List Nat}
    (hmem : groupAfter props n ((rules.take i).map Rule.source) ∈ groups)
    (hle : ∀ g ∈ groups, groupAfter props n ((rules.take i).map Rule.source) ≤ g) (k : Nat) :
    (edges.zipIdx k).find? (fun e => groups.contains e.1.group) =
      some (⟨groupAfter props n ((rules.take i).map Rule.source), r.emit, r.goto⟩, k + i) := by
  induction rules generalizing i index n edges k with
  | nil => cases hi
  | cons s rs ih =>
    obtain ⟨hread, rest, hrest, rfl⟩ := edgesFrom_cons h
    rcases i with _ | i
    · obtain rfl : s = r := by simpa using hi
      have hmem : n ∈ groups := hmem
      simp [hmem, groupAfter]
    · have hcount : (s.own props).groupCount = opened props s.source :=
        groupCount_own hread (hkeep s (by simp))
      have hgroup : groupAfter props n (((s :: rs).take (i + 1)).map Rule.source) =
          groupAfter props (n + 1 + (s.own props).groupCount) ((rs.take i).map Rule.source) := by
        rw [hcount]
        rfl
      rw [hgroup] at hmem hle ⊢
      have hnot : n ∉ groups := fun hn => by
        have hlow := hle n hn
        have hhigh :=
          le_groupAfter props (n + 1 + (s.own props).groupCount) ((rs.take i).map Rule.source)
        omega
      rw [List.zipIdx_cons, List.find?_cons_of_neg (by simpa using hnot),
        ih hrest (by simpa using hi) (fun x hx => hkeep x (by simp [hx])) hmem hle]
      simp only [Option.some.injEq, Prod.mk.injEq, true_and]
      omega

variable {name : String} {st : State T X}

/-- What the rules of a state are compiled to. -/
lemma cases_of_compile (h : compile props name rules = .ok st) :
    st.name = name ∧ edgesFrom props name 0 1 rules = .ok st.edges ∧
      (rules = [] ∧ st.alternation = none ∨
        rules ≠ [] ∧ ∃ p, read? (join (rules.map Rule.source)) props = some p ∧
          st.alternation = some (join (rules.map Rule.source), p)) := by
  unfold compile at h
  rcases hedges : edgesFrom props name 0 1 rules with e | edges
  · rw [hedges] at h
    cases h
  · rw [hedges] at h
    rcases rules with _ | ⟨r, rs⟩
    · cases h
      exact ⟨rfl, rfl, .inl ⟨rfl, rfl⟩⟩
    · rcases hread : read? (join ((r :: rs).map Rule.source)) props with _ | p
      · simp only [hread] at h
        cases h
      · simp only [hread] at h
        cases h
        exact ⟨rfl, rfl, .inr ⟨List.cons_ne_nil r rs, p, rfl, rfl⟩⟩

/-- Without skipped comments the brackets around the patterns are what they seem. -/
lemma takesBracket_of_compile (h : compile props name rules = .ok st)
    (hquiet : ∀ r ∈ rules, switchesVerbose props r.source = false) :
    ∀ r ∈ rules, takesBracket props r.source = false := by
  obtain ⟨-, hedges, -⟩ := cases_of_compile h
  exact fun r hr => takesBracket_of_quiet (isSome_of_edgesFrom hedges r hr) (hquiet r hr)

/-- The alternation of a state is that of the patterns of its rules, unless a pattern takes the
bracket after it. -/
lemma alternation_of_compile (h : compile props name rules = .ok st)
    (htakes : ∀ r ∈ rules, takesBracket props r.source = false) :
    rules = [] ∧ st.alternation = none ∨ rules ≠ [] ∧ st.alternation =
      some (join (rules.map Rule.source), anyOf (arranged props 1 (rules.map Rule.source))) := by
  obtain ⟨-, hedges, hnil | ⟨hne, p, hp, hsome⟩⟩ := cases_of_compile h
  · exact .inl hnil
  · have hread := isSome_of_edgesFrom hedges
    have hp : p = anyOf (arranged props 1 (rules.map Rule.source)) :=
      read?_join (by simpa using hread) (by simpa using htakes) (by simpa using hne) hp
    exact .inr ⟨hne, by rw [hsome, hp]⟩

/-- The match of a state is that of the first own pattern, with the first edge that has one of its
groups. -/
lemma match?_of_compile (h : compile props name rules = .ok st)
    (hquiet : ∀ r ∈ rules, switchesVerbose props r.source = false) (place : Place) :
    st.match? place = (pickOwn? props place 1 (rules.map Rule.source)).bind fun m =>
      (st.edges.zipIdx.find? fun e =>
        (m.2.copy (· + m.1) [m.1]).groups.contains e.1.group).map fun e =>
          ⟨e.2, e.1, place.rest.take m.2.taken, m.2.place⟩ := by
  rcases alternation_of_compile h (takesBracket_of_compile h hquiet) with
    ⟨rfl, hnone⟩ | ⟨-, hsome⟩
  · simp [match?, hnone, pickOwn?]
  · simp only [match?, hsome, match?_anyOf_arranged, Option.bind_eq_bind, Option.bind_some]
    rcases pickOwn? props place 1 (rules.map Rule.source) with _ | m
    · rfl
    · simp only [Option.bind_some, Option.map_eq_bind]
      rfl

/-- The text of a match is that of the first rule that matches. -/
lemma text_of_first (h : compile props name rules = .ok st)
    (hquiet : ∀ r ∈ rules, switchesVerbose props r.source = false) {stop : Run}
    (hi : rules[i]? = some r) (hmatch : (r.own props).match? place = some stop)
    (hearlier : ∀ s ∈ rules.take i, (s.own props).match? place = none) {m : Match T X}
    (hm : st.match? place = some m) :
    m.text = place.rest.take stop.taken ∧ m.after = stop.place := by
  rw [match?_of_compile h hquiet, pickOwn?_eq_some hi hmatch hearlier, Option.bind_some] at hm
  obtain ⟨e, -, rfl⟩ := Option.map_eq_some_iff.1 hm
  exact ⟨rfl, rfl⟩

/-- So is its edge, unless groups are dropped before that rule. -/
lemma match?_of_first (h : compile props name rules = .ok st)
    (hquiet : ∀ r ∈ rules, switchesVerbose props r.source = false) {stop : Run}
    (hi : rules[i]? = some r) (hmatch : (r.own props).match? place = some stop)
    (hearlier : ∀ s ∈ rules.take i, (s.own props).match? place = none)
    (hkeep : ∀ s ∈ rules.take i, dropsGroup props s.source = false) :
    st.match? place =
      some ⟨i, ⟨groupAfter props 1 ((rules.take i).map Rule.source), r.emit, r.goto⟩,
      place.rest.take stop.taken, stop.place⟩ := by
  obtain ⟨-, hedges, -⟩ := cases_of_compile h
  rw [match?_of_compile h hquiet, pickOwn?_eq_some hi hmatch hearlier, Option.bind_some,
    find?_edgesFrom hedges hi hkeep (Run.mem_copy stop _) (Run.le_of_mem_copy stop _),
    Option.map_some, Nat.zero_add]

end State

/-- What a rule matches on its own at a byte offset of a text: its text and the place after it. -/
def Rule.matchAt? (props : Properties) (r : Rule T X) (input : List Char) (position : Nat) :
    Option (List Char × Place) :=
  (Place.seek? none position input).bind fun place =>
    ((r.own props).match? place).map fun stop => (place.rest.take stop.taken, stop.place)

namespace Grammar

variable {table : RuleTable T X} {g : Grammar T X} {name : String}

lemma find?_place (st : State T X) (states : List (State T X)) (name : String) :
    (Grammar.place st states).find? (·.name = name) =
      if st.name = name then some st else states.find? (·.name = name) := by
  induction states with
  | nil =>
    by_cases hname : st.name = name <;> simp [Grammar.place, hname]
  | cons s ss ih =>
    rw [Grammar.place]
    split_ifs with hname hst hst
    · simp [hst]
    · have hs : s.name ≠ name := hname ▸ hst
      simp [hst, hs]
    · have hs : s.name ≠ name := hst ▸ hname
      simp [hs, ih, hst]
    · simp only [List.find?_cons, ih, if_neg hst]

lemma compile_append {e : String × List (Rule T X)} (hg : compile (table ++ [e]) props = .ok g) :
    ∃ before st, compile table props = .ok before ∧ State.compile props e.1 e.2 = .ok st ∧
      g.states = Grammar.place st before.states := by
  unfold compile at hg ⊢
  rw [List.foldlM_append] at hg
  rcases hinit : table.foldlM
    (fun states e => (Grammar.place · states) <$> State.compile props e.1 e.2) [] with err | states
  · rw [hinit] at hg
    cases hg
  · rcases hlast : State.compile props e.1 e.2 with err | st
    · simp only [hinit, List.foldlM_cons, hlast] at hg
      cases hg
    · simp only [hinit, List.foldlM_cons, List.foldlM_nil, hlast] at hg
      cases hg
      exact ⟨⟨states⟩, st, by rw [hinit]; rfl, rfl, rfl⟩

lemma state?_of_compile (hg : compile table props = .ok g) {rules : List (Rule T X)}
    (hstate : table.reverse.lookup name = some rules) :
    ∃ st, g.state? name = some st ∧ State.compile props name rules = .ok st := by
  induction table using List.reverseRecOn generalizing g with
  | nil => cases hstate
  | append_singleton table e ih =>
    obtain ⟨before, st, hbefore, hst, hstates⟩ := compile_append hg
    have hname : st.name = e.1 := (State.cases_of_compile hst).1
    rw [List.reverse_concat, List.lookup_cons] at hstate
    rw [state?, hstates, find?_place, hname]
    split at hstate
    · rename_i heq
      obtain rfl : name = e.1 := by simpa using heq
      cases hstate
      exact ⟨st, if_pos rfl, hst⟩
    · rename_i heq
      rw [if_neg (beq_eq_false_iff_ne.1 heq).symm]
      exact ih hbefore hstate

/-- A table, a state of it and a match are there if evaluating them comes to something. -/
lemma exists_match_of_eval {α : Type} {a : α} {input : List Char} {position : Nat}
    {f : State T X → Match T X → Option α}
    (h : ((compile table props).toOption.bind fun g => (g.state? name).bind fun st =>
      (st.matchAt? input position).bind (f st)) = some a) :
    ∃ g st m, compile table props = .ok g ∧ g.state? name = some st ∧
      st.matchAt? input position = some m ∧ f st m = some a := by
  obtain ⟨g, hg, h⟩ := Option.bind_eq_some_iff.1 h
  obtain ⟨st, hst, h⟩ := Option.bind_eq_some_iff.1 h
  obtain ⟨m, hm, h⟩ := Option.bind_eq_some_iff.1 h
  exact ⟨g, st, m, eq_ok_of_toOption hg, hst, hm, h⟩

/-- **The first rule wins**: what a declared state matches at an offset is what its first rule that
matches there does on its own, and there is no match if none of them has one. This is so with any
tables of properties. No pattern may switch on the skipping of comments. For the match to have the
edge of that rule, no rule before it may repeat a group zero times. -/
theorem first_rule_wins {props : Properties} (hg : compile table props = .ok g)
    {rules : List (Rule T X)} (hstate : table.reverse.lookup name = some rules)
    (hquiet : ∀ r ∈ rules, switchesVerbose props r.source = false) :
    ∃ st, g.state? name = some st ∧ ∀ input position,
      ((∀ r ∈ rules, r.matchAt? props input position = none) →
        st.matchAt? input position = none) ∧
      ∀ i r text after, rules[i]? = some r →
        r.matchAt? props input position = some (text, after) →
        (∀ s ∈ rules.take i, s.matchAt? props input position = none) →
          (∀ m, st.matchAt? input position = some m → m.text = text ∧ m.after = after) ∧
          ((∀ s ∈ rules.take i, dropsGroup props s.source = false) →
            ∃ group,
              st.matchAt? input position = some ⟨i, ⟨group, r.emit, r.goto⟩, text, after⟩) := by
  obtain ⟨st, hst, hcompile⟩ := state?_of_compile hg hstate
  refine ⟨st, hst, fun input position => ?_⟩
  simp only [Rule.matchAt?, State.matchAt?]
  rcases Place.seek? none position input with _ | place
  · simp
  · simp only [Option.bind_some, Option.map_eq_none_iff, Option.map_eq_some_iff]
    refine ⟨fun hnone => ?_, ?_⟩
    · rw [State.match?_of_compile hcompile hquiet, pickOwn?_eq_none hnone, Option.bind_none]
    · rintro i r text after hi ⟨stop, hmatch, heq⟩ hearlier
      cases heq
      exact ⟨fun m hm => State.text_of_first hcompile hquiet hi hmatch hearlier hm,
        fun hkeep => ⟨_, State.match?_of_first hcompile hquiet hi hmatch hearlier hkeep⟩⟩

def hexDigits : Properties where
  ranges? p :=
    if p = .named "ASCII_Hex_Digit".toList then some [(0x30, 0x39), (0x41, 0x46), (0x61, 0x66)]
    else none

def nestedRules : RuleTable Nat Nat :=
  [("main", [⟨some "(a)(?P<k>b)|[\\P\x7bASCII_Hex_Digit\x7d&&c-g]", .const 0, .stay⟩,
    ⟨some "(?i)\\p\x7bASCII_Hex_Digit\x7dB(x|y)", .const 1, .stay⟩,
    ⟨some "[a-z]+", .const 2, .const "other"⟩])]

/-- The second rule, at an offset that is not the first. -/
theorem first_rule_wins_nested : ∃ g st group, compile nestedRules hexDigits = .ok g ∧
    g.state? "main" = some st ∧
    st.matchAt? "ñaBx+".toList 2 =
      some ⟨1, ⟨group, .const 1, .stay⟩, "aBx".toList, ⟨some 'x', ['+']⟩⟩ := by
  have hcompiled : (compile nestedRules hexDigits).toOption.isSome = true := by decide +kernel
  obtain ⟨g, hg⟩ := exists_ok_of_isSome hcompiled
  obtain ⟨st, hst, hall⟩ := first_rule_wins hg
    (show nestedRules.reverse.lookup "main" = some _ from rfl) (by decide +kernel)
  obtain ⟨-, hfirst⟩ := hall "ñaBx+".toList 2
  obtain ⟨-, hedge⟩ := hfirst 1 _ "aBx".toList ⟨some 'x', ['+']⟩ rfl (by decide +kernel)
    (by decide +kernel)
  obtain ⟨group, hmatch⟩ := hedge (by decide +kernel)
  exact ⟨g, st, group, hg, hst, hmatch⟩

/-- A rule that repeats a group zero times, and two more. -/
def droppingRules : List (Rule Nat Nat) :=
  [⟨some "(a)\x7b0\x7dx", .const 0, .stay⟩, ⟨some "b", .const 1, .stay⟩,
    ⟨some "c", .const 2, .stay⟩]

/-- Only the second rule matches, but the match has the edge of the third. -/
theorem dropped_group_shifts_edges :
    (droppingRules.all fun r => !switchesVerbose {} r.source) ∧
    (droppingRules.map fun r => r.matchAt? {} ['b'] 0) =
      [none, some (['b'], ⟨some 'b', []⟩), none] ∧
    ∃ g st m, compile [("main", droppingRules)] = .ok g ∧ g.state? "main" = some st ∧
      st.matchAt? ['b'] 0 = some m ∧ m.index = 2 := by
  refine ⟨by decide +kernel, by decide +kernel, ?_⟩
  have hrun : ((compile [("main", droppingRules)]).toOption.bind fun g =>
      (g.state? "main").bind fun st => (st.matchAt? ['b'] 0).bind fun m => some m.index) =
      some 2 := by
    decide +kernel
  obtain ⟨g, st, m, hg, hst, hm, hindex⟩ := exists_match_of_eval hrun
  exact ⟨g, st, m, hg, hst, hm, Option.some.inj hindex⟩

end Grammar

end ScanTree
