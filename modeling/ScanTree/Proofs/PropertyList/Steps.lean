import ScanTree.Proofs.Pulls
import ScanTree.Proofs.PropertyList.Moves
import ScanTree.PropertyList.Parse

/-!
Steps of a scan of property-list text: each pull that gives a token does a move, and the scan of a
text always comes to a stop.
-/

namespace ScanTree.PropertyList

open Pattern

lemma isRegular_ruleTable : ∀ e ∈ ruleTable, State.isRegular e.2 = true := by decide +kernel

lemma names_nodup : (ruleTable.map Prod.fst).Nodup := by decide

lemma grammar_of_compile {g : Grammar Tag Nesting} (h : Grammar.compile ruleTable = .ok g) :
    grammar = g := by
  delta grammar
  rw [h]

lemma grammar_eq : grammar = ⟨ruleTable.map fun e => State.assembled e.1 e.2⟩ :=
  grammar_of_compile (Grammar.compile_eq_assembled isRegular_ruleTable names_nodup)

/-- The grammar with its patterns read, so that a scan need not read them again. -/
def spelledGrammar : Grammar Tag Nesting :=
  ⟨ruleTable.zipWith (fun e ps => ⟨e.1,
    some (State.join (e.2.map Rule.source), Pattern.anyOf (Pattern.numbered 1 ps)),
    State.plainEdges 1 e.2⟩) patternTable⟩

lemma grammar_eq_spelled : grammar = spelledGrammar := by
  rw [grammar_eq, spelledGrammar, ← patterns_ruleTable, List.zipWith_map_right, List.zipWith_self]
  rfl

lemma tokens_eq_drain (input : String) (excerptLength : Nat) :
    tokens input excerptLength = Scan.drain (pullBound input)
      { spelledGrammar.scan input 0 "main" {} with excerptLength } := by
  rw [tokens, scan, grammar_eq_spelled]

lemma state?_assembled {table : RuleTable Tag Nesting} {q : String}
    {rules : List (Rule Tag Nesting)}
    (hnames : (table.map Prod.fst).Nodup) (hq : (q, rules) ∈ table) :
    (Grammar.mk (table.map fun e => State.assembled e.1 e.2)).state? q =
      some (State.assembled q rules) := by
  induction table with
  | nil => cases hq
  | cons e es ih =>
    rw [List.map_cons, List.nodup_cons] at hnames
    rcases List.mem_cons.1 hq with rfl | hq
    · simp [Grammar.state?, State.assembled]
    · have hne : e.1 ≠ q := fun h => hnames.1 (h ▸ List.mem_map_of_mem hq)
      have := ih hnames.2 hq
      simp only [Grammar.state?, List.map_cons] at this ⊢
      rw [List.find?_cons_of_neg (by simp [State.assembled, hne]), this]

lemma state?_grammar {q : String} {rules : List (Rule Tag Nesting)} (hq : (q, rules) ∈ ruleTable) :
    grammar.state? q = some (State.assembled q rules) := by
  rw [grammar_eq]
  exact state?_assembled names_nodup hq

lemma exists_rules_of_state? {q : String} {st : State Tag Nesting}
    (h : grammar.state? q = some st) :
    ∃ rules, (q, rules) ∈ ruleTable := by
  rw [grammar_eq] at h
  have hname : st.name = q := by
    have := List.find?_some h
    simpa using this
  obtain ⟨e, he, rfl⟩ := List.mem_map.1 (List.mem_of_find?_eq_some h)
  have hname : e.1 = q := hname
  exact ⟨e.2, hname ▸ he⟩

structure At (s : Scan Tag Nesting) (q : String) (tails : List String) (place : Place) : Prop where
  grammar : s.grammar = grammar
  live : s.finished = false
  place : s.place = some place
  state : s.context.state = q
  tails : s.context.ext.tails = tails

lemma at_scan (input : String) (excerptLength : Nat) :
    At (scan input excerptLength) "main" [] ⟨none, input.toList⟩ := by
  constructor <;> simp only [scan, Grammar.scan, Place.seek?]

variable {s s' : Scan Tag Nesting} {q : String} {tails : List String} {place : Place}

lemma At.next_eq (h : At s q tails place) {rules : List (Rule Tag Nesting)}
    (hq : (q, rules) ∈ ruleTable) :
    match pick? place rules with
    | none => s.next = (s.unmatched place, { s with finished := true }, [])
    | some (r, stop) => ∃ t s' log, s.next = (.token t, s', log) ∧ t.tag = tagOf r ∧
        t.text = String.ofList (place.rest.take stop.taken) ∧
        At s' (landing r q tails).1 (landing r q tails).2 stop.place := by
  have hmatch := State.match?_assembled (isRegular_ruleTable _ hq) q place
  rcases hp : pick? place rules with _ | ⟨r, stop⟩
  · rw [hp] at hmatch
    simp only at hmatch
    simp only [Scan.next, h.live, h.place, h.grammar, h.state, state?_grammar hq, hmatch]
  · rw [hp] at hmatch
    obtain ⟨m, hm, hemit, hgoto, htext, hafter⟩ := hmatch
    have hsteady : Steady r := steady_of_mem hq (mem_of_pick? hp).1
    refine ⟨(s.take m).1, { s with context := (s.take m).2, place := some m.after },
      [s.record m.text], ?_, ?_, ?_, h.grammar, h.live, ?_, ?_, ?_⟩
    · simp only [Scan.next, h.live, h.place, h.grammar, h.state, state?_grammar hq, hm]
    · simp only [Scan.take, hemit, hsteady.emits]
    · simp only [Scan.take, htext]
    · simp only [hafter]
    · simp only [Scan.take, hemit, hgoto, hsteady.lands, hsteady.keeps, h.state, h.tails]
    · simp only [Scan.take, hemit, hgoto, hsteady.nests, hsteady.keeps, h.state, h.tails]

/-- In these states a rule without a pattern leads on to a value. -/
def mayIdle (q : String) : Bool := q = "arrayHead" || q = "afterComma"

/-- Only rules without a pattern may take nothing. -/
lemma nullable_of_mem : ∀ e ∈ ruleTable, ∀ r ∈ e.2, r.ownPattern.nullable = r.pattern.isNone :=
  forall_ownPattern rfl

lemma idle_of_mem {q : String} {rules : List (Rule Tag Nesting)} (hq : (q, rules) ∈ ruleTable)
    {r : Rule Tag Nesting} (hr : r ∈ rules) (hnone : r.pattern = none) (tails : List String) :
    mayIdle q ∧ (landing r q tails).1 = "main" := by
  have hall : ∀ e ∈ ruleTable, ∀ r ∈ e.2, r.pattern = none →
      mayIdle e.1 ∧ (landing r e.1 tails).1 = "main" := by
    simp [ruleTable, mainRules, elementRules, spaceRules, closeArray, closeDict, rule, lineRule,
      otherwise, mayIdle, landing, Goto.apply]
  exact hall _ hq r hr hnone

structure Step (q : String) (tails : List String) (place : Place) (t : Token Tag) (q' : String)
    (tails' : List String) (place' : Place) : Prop where
  move : Move q tails t.tag q' tails'
  spelled : SpellsWell q t.tag t.text.toList
  split : place.rest = t.text.toList ++ place'.rest
  /-- A step without text leads on to a value. -/
  idle : t.text.toList = [] → mayIdle q ∧ q' = "main"

/-- **Step**: a pull that gives a token does a move, and takes the text of the token. -/
lemma At.step (h : At s q tails place) {t : Token Tag} {log : List Record}
    (hn : s.next = (.token t, s', log)) :
    ∃ q' tails' place', At s' q' tails' place' ∧ Step q tails place t q' tails' place' := by
  have hstate : ∃ rules, (q, rules) ∈ ruleTable := by
    rcases hst : PropertyList.grammar.state? q with _ | st
    · simp [Scan.next, h.live, h.place, h.grammar, h.state, hst] at hn
    · exact exists_rules_of_state? hst
  obtain ⟨rules, hq⟩ := hstate
  have hnext := h.next_eq hq
  rcases hp : pick? place rules with _ | ⟨r, stop⟩
  · rw [hp] at hnext
    simp only at hnext
    rw [hnext] at hn
    unfold Scan.unmatched at hn
    split_ifs at hn <;> simp at hn
  · rw [hp] at hnext
    obtain ⟨t', mid, log', hn', htag, htext, hat⟩ := hnext
    rw [hn'] at hn
    simp only [Prod.mk.injEq, Pull.token.injEq] at hn
    obtain ⟨rfl, rfl, rfl⟩ := hn
    obtain ⟨hr, hown⟩ := mem_of_pick? hp
    obtain ⟨-, hspells, hplace⟩ :=
      spells_of_match? (State.isPlain_of_mem (isRegular_ruleTable _ hq) hr) hown
    have hlist : t'.text.toList = place.rest.take stop.taken := by rw [htext, String.toList_ofList]
    refine ⟨_, _, _, hat, ?_, ?_, ?_, ?_⟩
    · rw [htag]
      exact moves_of_mem hq hr tails
    · rw [hlist, htag]
      exact spelling_of_mem hq hr _ hspells
    · rw [hlist, hplace, Place.rest_past, List.take_append_drop]
    · intro hnil
      rw [← hlist, hnil] at hspells
      have hnull := nullable_of_spells hspells
      rw [nullable_of_mem _ hq r hr] at hnull
      exact idle_of_mem hq hr (by simpa using hnull) tails

/-- Bounds the tokens that are still to come. -/
def budget (s : Scan Tag Nesting) : Nat :=
  2 * (s.place.elim 0 fun place => place.rest.length) + if mayIdle s.context.state then 1 else 0

lemma At.budget_lt (h : At s q tails place) {t : Token Tag} {log : List Record}
    (hn : s.next = (.token t, s', log)) : budget s' < budget s := by
  obtain ⟨q', tails', place', hat, hstep⟩ := h.step hn
  have hlen := congrArg List.length hstep.split
  rw [List.length_append] at hlen
  simp only [budget, h.place, hat.place, Option.elim_some, h.state, hat.state]
  rcases ht : t.text.toList with _ | ⟨c, cs⟩
  · obtain ⟨hq, rfl⟩ := hstep.idle ht
    have hmain : mayIdle "main" = false := by decide
    rw [ht, List.length_nil] at hlen
    simp only [hq, hmain, if_true]
    simp
    omega
  · rw [ht, List.length_cons] at hlen
    split_ifs <;> omega

lemma At.length_le_budget (h : At s q tails place) {es : List (Scan.Entry Tag Nesting)}
    (hp : Pulls s es s') : es.length ≤ budget s := by
  induction hp generalizing q tails place with
  | nil s => exact Nat.zero_le _
  | cons hn _ ih =>
    obtain ⟨q', tails', place', h', -⟩ := h.step hn
    have := h.budget_lt hn
    have := ih h'
    rw [List.length_cons]
    omega

/-- Every second token of a text at least takes a byte of it. -/
lemma budget_scan_le (input : String) (excerptLength : Nat) :
    budget (scan input excerptLength) ≤ 2 * Text.byteSize input.toList := by
  have hlen : input.toList.length ≤ Text.byteSize input.toList := by
    induction input.toList with
    | nil => exact Nat.le_refl 0
    | cons c cs ih =>
      have := c.utf8Size_pos
      simp only [List.length_cons, Text.byteSize_cons]
      omega
  have hmain : mayIdle "main" = false := by decide
  simp only [budget, (at_scan input excerptLength).place, (at_scan input excerptLength).state,
    Option.elim_some, hmain]
  simp
  omega

lemma budget_scan_lt (input : String) (excerptLength : Nat) :
    budget (scan input excerptLength) < pullBound input :=
  Nat.lt_add_right 1 (Nat.lt_succ_of_le (budget_scan_le input excerptLength))

/-- **The scan of a text stops** within the pulls that are allowed. -/
theorem tokens_stop (input : String) (excerptLength : Nat) :
    ∃ pull, (tokens input excerptLength).2.2 = some pull := by
  refine Scan.drain_stops budget (P := fun s => ∃ q tails place, At s q tails place)
    (fun {s s' t log} h hn => ?_) ⟨_, _, _, at_scan input excerptLength⟩
    (budget_scan_lt input excerptLength)
  obtain ⟨q, tails, place, h⟩ := h
  obtain ⟨q', tails', place', h', -⟩ := h.step hn
  exact ⟨⟨q', tails', place', h'⟩, h.budget_lt hn⟩

lemma exists_tokens (input : String) (excerptLength : Nat) :
    ∃ es s pull, tokens input excerptLength = (es, s, some pull) := by
  obtain ⟨pull, hpull⟩ := tokens_stop input excerptLength
  exact ⟨_, _, pull, by rw [← hpull]⟩

/-- The tokens of a text are those of its pulls up to the first that gives none. -/
lemma tokens_eq {input : String} {excerptLength : Nat} {es : List (Scan.Entry Tag Nesting)}
    {mid : Scan Tag Nesting} {pull : Pull Tag} {log : List Record}
    (hp : Pulls (scan input excerptLength) es mid) (hn : mid.next = (pull, s', log))
    (hpull : pull.isToken = false) : tokens input excerptLength = (es, s', some pull) := by
  have hlen := (at_scan input excerptLength).length_le_budget hp
  have hbound := budget_scan_lt input excerptLength
  exact Scan.drain_of_pulls hp hn hpull (by omega)

end ScanTree.PropertyList
