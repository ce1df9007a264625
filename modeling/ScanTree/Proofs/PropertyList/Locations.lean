import Mathlib.Data.List.DropRight
import ScanTree.Proofs.Coverage
import ScanTree.Proofs.PropertyList.Acceptance

/-!
Locations are exact: the line and the column that a scan of property-list text reports are those of
the offset where it stands.

The scan counts lines in the rules whose text may hold a line feed, and in no others. That these
are enough is a fact about the patterns: every other pattern avoids the line feed.
-/

namespace ScanTree

namespace Text

def lastLine (cs : List Char) : List Char := cs.rtakeWhile (· ≠ '\n')

lemma lastLine_append (u w : List Char) :
    lastLine (u ++ w) = if '\n' ∈ w then lastLine w else lastLine u ++ w := by
  induction w using List.reverseRecOn with
  | nil => simp
  | append_singleton w c ih =>
    rw [← List.append_assoc, lastLine, lastLine, List.rtakeWhile_concat, List.rtakeWhile_concat]
    rw [lastLine, lastLine] at ih
    by_cases hc : c = '\n'
    · simp [hc]
    · have hmem : '\n' ∈ w ++ [c] ↔ '\n' ∈ w := by simp [Ne.symm hc]
      simp only [hmem, ih, ne_eq, hc, not_false_eq_true, decide_true, if_true]
      split_ifs <;> simp [lastLine]

lemma lastLine_suffix (cs : List Char) : lastLine cs <:+ cs := List.rtakeWhile_suffix _ cs

lemma afterLastLineFeed?_spec (w : List Char) :
    match afterLastLineFeed? w with
    | none => '\n' ∉ w
    | some n => '\n' ∈ w ∧ n + byteSize (lastLine w) = byteSize w := by
  induction w with
  | nil => simp [afterLastLineFeed?]
  | cons c cs ih =>
    have hline := lastLine_append [c] cs
    rw [List.singleton_append] at hline
    unfold afterLastLineFeed?
    rcases hcs : afterLastLineFeed? cs with _ | n
    · rw [hcs] at ih
      have ih : '\n' ∉ cs := ih
      rw [if_neg ih] at hline
      by_cases hc : c = '\n'
      · subst hc
        have hnone : lastLine ['\n'] = [] := rfl
        have hone : ('\n' : Char).utf8Size = 1 := rfl
        simp [hline, hnone, hone]
      · simp [hc, ih, Ne.symm hc]
    · rw [hcs] at ih
      obtain ⟨hmem, hsize⟩ : '\n' ∈ cs ∧ n + byteSize (lastLine cs) = byteSize cs := ih
      rw [if_pos hmem] at hline
      refine ⟨List.mem_cons_of_mem _ hmem, ?_⟩
      rw [hline, byteSize_cons, ← hsize, Nat.add_assoc]

end Text

namespace Pattern

/-- Whether no text of a pattern holds a character. -/
def avoids (c : Char) : Pattern → Bool
  | empty | look _ => true
  | set s => !s.contains c
  | seq p q | alt p q => p.avoids c && q.avoids c
  | group _ p => p.avoids c
  | rep p .. => p.avoids c

lemma not_mem_of_spells {c : Char} {p : Pattern} (hp : p.avoids c = true) {w : List Char}
    (h : p.Spells w) : c ∉ w := by
  induction p generalizing w with
  | empty => simp [show w = [] from h]
  | look l => simp [show w = [] from h]
  | set s =>
    obtain ⟨d, hd, rfl⟩ := h
    rw [List.mem_singleton]
    rintro rfl
    simp [avoids, hd] at hp
  | seq p q ihp ihq =>
    obtain ⟨u, v, hu, hv, rfl⟩ := h
    simp only [avoids, Bool.and_eq_true] at hp
    rw [List.mem_append, not_or]
    exact ⟨ihp hp.1 hu, ihq hp.2 hv⟩
  | alt p q ihp ihq =>
    simp only [avoids, Bool.and_eq_true] at hp
    exact h.elim (ihp hp.1) (ihq hp.2)
  | group i p ih => exact ih hp h
  | rep p min max greedy ih =>
    obtain ⟨ws, hws, -, -, rfl⟩ := h
    rw [List.mem_flatten]
    rintro ⟨u, hu, hc⟩
    exact ih hp (hws u hu) hc

end Pattern

namespace PropertyList

open Pattern Text

/-! ### Lines of a scan -/

/-- The lines of a scan are counted for the text before its offset. -/
structure Counts (n : Nesting) (before : List Char) : Prop where
  line : n.line = lineFeeds before + 1
  lineStart : n.lineStart + byteSize (lastLine before) = byteSize before

variable {n : Nesting} {before w : List Char}

lemma Counts.append (h : Counts n before) (hw : '\n' ∉ w) : Counts n (before ++ w) := by
  constructor
  · rw [h.line, lineFeeds_append, lineFeeds_eq_zero.2 hw, Nat.add_zero]
  · rw [lastLine_append, if_neg hw, byteSize_append, byteSize_append, ← h.lineStart, Nat.add_assoc]

lemma Counts.trackLines {cx : Context Nesting} (h : Counts cx.ext before)
    (hposition : cx.position = byteSize before) : Counts (trackLines w cx).ext (before ++ w) := by
  have hspec := afterLastLineFeed?_spec w
  unfold PropertyList.trackLines
  rcases hw : afterLastLineFeed? w with _ | k
  · rw [hw] at hspec
    exact h.append hspec
  · rw [hw] at hspec
    obtain ⟨hmem, hsize⟩ : '\n' ∈ w ∧ k + byteSize (lastLine w) = byteSize w := hspec
    constructor
    · show cx.ext.line + lineFeeds w = _
      rw [h.line, lineFeeds_append]
      omega
    · show cx.position + k + byteSize (lastLine (before ++ w)) = _
      rw [lastLine_append, if_pos hmem, byteSize_append, hposition, ← hsize, Nat.add_assoc]

inductive IsEmit : Emit Tag Nesting → Prop
  | const (tag : Tag) : IsEmit (.const tag)
  | overLines (tag : Tag) : IsEmit (overLines tag)

def isConst : Emit Tag Nesting → Bool
  | .const _ => true
  | .compute _ => false

lemma callbacks_of_mem : ∀ e ∈ ruleTable, ∀ r ∈ e.2, IsEmit r.emit ∧ IsGoto r.goto := by
  simp only [ruleTable, mainRules, elementRules, spaceRules, closeArray, closeDict,
    List.forall_mem_cons, List.forall_mem_append]
  simp [rule, lineRule, otherwise, IsEmit.const, IsEmit.overLines, IsGoto.stay, IsGoto.const,
    IsGoto.resume, IsGoto.descend, IsGoto.ascend]

/-- The rules that count lines are those whose pattern may take a line feed. -/
lemma avoids_of_mem : ∀ e ∈ ruleTable, ∀ r ∈ e.2, r.ownPattern.avoids '\n' = isConst r.emit :=
  forall_ownPattern (by decide +kernel)

lemma Counts.emit {emit : Emit Tag Nesting} (hemit : IsEmit emit) {taken : Taken}
    {cx : Context Nesting} (h : Counts cx.ext before) (hposition : cx.position = byteSize before)
    (hw : isConst emit = true → '\n' ∉ taken.text.toList) :
    Counts (emit.apply taken cx).2.ext (before ++ taken.text.toList) := by
  cases hemit with
  | const tag => exact h.append (hw rfl)
  | overLines tag => exact h.trackLines hposition

lemma Counts.goto {goto : Goto Nesting} (hgoto : IsGoto goto) {taken : Taken}
    {cx : Context Nesting} (h : Counts cx.ext before) :
    Counts (goto.apply taken cx).2.ext before := by
  cases hgoto <;> exact ⟨h.line, h.lineStart⟩

variable {s s' : Scan Tag Nesting} {q : String} {tails : List String} {place : Place}

lemma At.counts (h : At s q tails place) (hbehind : s.Behind before)
    (hc : Counts s.context.ext before)
    {t : Token Tag} {log : List Record} (hn : s.next = (.token t, s', log)) :
    Counts s'.context.ext (before ++ t.text.toList) := by
  obtain ⟨-, -, -, st, m, hst, hm, htext, -, -, hext⟩ := (hbehind.next hn).1
  rw [h.grammar] at hst
  obtain ⟨rules, hq⟩ := exists_rules_of_state? hst
  have hregular := isRegular_ruleTable _ hq
  obtain rfl := Option.some.inj ((state?_grammar hq).symm.trans hst)
  have hmatch := State.match?_assembled hregular s.context.state place
  rw [hbehind.matchAt?_eq, h.place, Option.bind_some] at hm
  rcases hp : pick? place rules with _ | ⟨r, stop⟩
  · rw [hp] at hmatch
    have hmatch : (State.assembled s.context.state rules).match? place = none := hmatch
    rw [hmatch] at hm
    cases hm
  · rw [hp] at hmatch
    obtain ⟨m', hm', hemit, hgoto, htaken, -⟩ := hmatch
    obtain rfl := Option.some.inj (hm'.symm.trans hm)
    obtain ⟨hr, hown⟩ := mem_of_pick? hp
    obtain ⟨hisEmit, hisGoto⟩ := callbacks_of_mem _ hq r hr
    obtain ⟨-, hspells, -⟩ := spells_of_match? (State.isPlain_of_mem hregular hr) hown
    rw [← htaken, ← htext] at hspells
    rw [hext, hemit, hgoto]
    refine (hc.emit hisEmit hbehind.offset.symm fun hconst => ?_).goto hisGoto
    rw [← avoids_of_mem _ hq r hr] at hconst
    exact not_mem_of_spells hconst hspells

lemma behind_start (input : String) (excerptLength : Nat) : (scan input excerptLength).Behind [] :=
  Scan.behind_scan grammar (List.nil_append input.toList).symm "main" {} excerptLength

structure Located (input : String) (s : Scan Tag Nesting) (before : List Char) : Prop where
  input : s.input = input
  live : s.finished = false
  behind : s.Behind before
  counts : Counts s.context.ext before

lemma located_of_pulls {input : String} {excerptLength : Nat} {es : List (Scan.Entry Tag Nesting)}
    (hp : Pulls (scan input excerptLength) es s) : ∃ before, Located input s before := by
  have key : ∃ q tails place before, At s q tails place ∧ Located input s before := by
    refine hp.preserves (P := fun s _ => ∃ q tails place before, At s q tails place ∧
      Located input s before) (fun {s s' fs t log} hs hn => ?_) ?_
    · obtain ⟨q, tails, place, before, hat, hloc⟩ := hs
      obtain ⟨q', tails', place', hat', -⟩ := hat.step hn
      obtain ⟨-, hbehind, hinput, -, -⟩ := hloc.behind.next hn
      exact ⟨q', tails', place', _, hat', hinput.trans hloc.input, hat'.live, hbehind,
        hat.counts hloc.behind hloc.counts hn⟩
    · exact ⟨_, _, _, [], at_scan input excerptLength, rfl, rfl, behind_start input excerptLength,
        rfl, rfl⟩
  obtain ⟨-, -, -, before, -, h⟩ := key
  exact ⟨before, h⟩

/-! ### Locations -/

namespace Location

/-- The place after a text. -/
def after (before : List Char) : Location := ⟨lineFeeds before + 1, (lastLine before).length + 1⟩

/-- The place at a byte offset. -/
def at? (input : String) (offset : Nat) : Option Location :=
  (splitAtByte? offset input.toList).map fun p => after p.1

end Location

/-- The place that a scan reports is that of its offset. -/
lemma Located.location {input : String} (h : Located input s before) :
    Location.at? input s.context.position = some (.ofContext input s.context) := by
  obtain ⟨rest, hinput, -⟩ := h.behind.place
  rw [h.input] at hinput
  have hsplit : splitAtByte? s.context.position input.toList = some (before, rest) :=
    splitAtByte?_eq_some_iff.2 ⟨hinput, h.behind.offset⟩
  obtain ⟨lines, hlines⟩ := lastLine_suffix before
  have hstart : byteSize lines = s.context.ext.lineStart := by
    have hsize := h.counts.lineStart
    have happend := byteSize_append lines (lastLine before)
    rw [hlines] at happend
    omega
  have hslice : slice? s.context.ext.lineStart s.context.position input.toList =
      some (lastLine before) := by
    have := slice?_append lines (lastLine before) rest
    rwa [← List.append_assoc, hlines, ← byteSize_append, hlines, hstart, h.behind.offset,
      ← hinput] at this
  simp [Location.at?, Location.ofContext, hsplit, hslice, Location.after, h.counts.line]

lemma location_of_advance (input : String) (excerptLength n : Nat) :
    let s := (Scan.advance n (scan input excerptLength)).2
    Location.at? input s.context.position = some (.ofContext input s.context) := by
  obtain ⟨es, mid, hp, hadvance⟩ := (behind_start input excerptLength).advance_eq rfl n
  obtain ⟨before, hloc⟩ := located_of_pulls hp
  have hcontext : (Scan.advance n (scan input excerptLength)).2.context = mid.context := by
    rcases hadvance with h | ⟨pull, s', log, k, hn, htoken, h⟩
    · rw [h]
    · rw [h]
      exact (hloc.behind.stops hloc.live hn htoken).context
  simp only [hcontext]
  exact hloc.location

variable {options : Options} {input : String}

/-- What has no value is refused without a location. -/
lemma buildTree_of_location {err : Error} (h : parseWith options input = .error err)
    (hlocation : err.location?.isSome = true) : buildTree options input = .error err := by
  rcases parseWith_error h with htree | ⟨tree, -, hvalue⟩
  · exact htree
  · unfold treeValue at hvalue
    split at hvalue
    · cases hvalue
      cases hlocation
    · rename_i item _ _
      rcases hitem : resolve tree item with e | v <;> rw [hitem] at hvalue <;> cases hvalue
      cases hlocation

lemma location_of_noRule {location : Location} {state : String} {source : ScanError}
    (h : buildTree options input = .error (.noRule location state source)) :
    ∃ position excerpt, source = .noMatch position state excerpt ∧
      Location.at? input position = some location := by
  rcases hd : tokens input options.excerptLength with ⟨es, s, stop⟩
  rcases buildTree_error hd h with hfeed | ⟨e, rfl, heq⟩ | ⟨-, kinds, -, heq⟩
  · obtain ⟨taken, entry, rest, b, e, -, -, -, heq⟩ := feed_error hfeed
    cases heq
  · obtain ⟨mid, log, hp, hn, htoken⟩ := Scan.stop_of_drain hd
    obtain ⟨before, hloc⟩ := located_of_pulls hp
    have hstops := hloc.behind.stops hloc.live hn htoken
    rw [hstops.context, Scan.input_next hn, hloc.input] at heq
    rcases e with state' | ⟨position, state', excerpt⟩
    · cases heq
    · cases heq
      obtain ⟨rfl, -⟩ := hstops.noMatch_eq
      exact ⟨_, _, rfl, hloc.location⟩
  · cases heq

lemma location_of_invalid {location : Location} {e : BuildError}
    (h : buildTree options input = .error (.invalid location e)) :
    ∃ taken entry rest b, (tokens input options.excerptLength).1 = taken ++ entry :: rest ∧
      (feed input { context := options } taken).1 = .ok b ∧
      (b.write plan entry.token).result = .error e ∧
      Location.at? input entry.token.start = some location := by
  obtain ⟨es, s, pull, hd⟩ := exists_tokens input options.excerptLength
  rcases buildTree_error hd h with hfeed | ⟨e', -, heq⟩ | ⟨-, kinds, -, heq⟩
  · obtain ⟨taken, entry, rest, b, e', rfl, htaken, hwrite, heq⟩ := feed_error hfeed
    cases heq
    obtain ⟨last, log, hpulls, -, -⟩ := Scan.stop_of_drain hd
    obtain ⟨mid, mid', log', hp, hbefore, hn⟩ := hpulls.split
    obtain ⟨before, hloc⟩ := located_of_pulls hp
    refine ⟨taken, entry, rest, b, by rw [hd], htaken, hwrite, ?_⟩
    rw [(hloc.behind.next hn).1.start, ← hbefore]
    exact hloc.location
  · rcases e' with state | ⟨position, state, excerpt⟩ <;> cases heq
  · cases heq

/-- **Locations are exact**: after any number of pulls the line and the column of a scan are those
of its offset. A text without a matching rule is refused at the offset that the error carries, and a
token that cannot be written at the first byte of the token. -/
theorem locations_exact (options : Options) (input : String) :
    (∀ n, let s := (Scan.advance n (scan input options.excerptLength)).2
      Location.at? input s.context.position = some (.ofContext input s.context)) ∧
    (∀ location state source, parseWith options input = .error (.noRule location state source) →
      ∃ position excerpt, source = .noMatch position state excerpt ∧
        Location.at? input position = some location) ∧
    ∀ location e, parseWith options input = .error (.invalid location e) →
      ∃ taken entry rest b, (tokens input options.excerptLength).1 = taken ++ entry :: rest ∧
        (feed input { context := options } taken).1 = .ok b ∧
        (b.write plan entry.token).result = .error e ∧
        Location.at? input entry.token.start = some location :=
  ⟨location_of_advance input options.excerptLength,
    fun _ _ _ h => location_of_noRule (buildTree_of_location h rfl),
    fun _ _ h => location_of_invalid (buildTree_of_location h rfl)⟩

set_option maxRecDepth 4000 in
/-- A number that is too large, on the second line of a quoted key. -/
theorem location_in_second_line :
    ∃ taken entry rest b, (tokens "\x7b\"ä\nü\"=99999999999999999999" defaultExcerptLength).1 =
        taken ++ entry :: rest ∧
      (feed "\x7b\"ä\nü\"=99999999999999999999" { context := {} } taken).1 = .ok b ∧
      (b.write plan entry.token).result =
        .error (unreadable .int "99999999999999999999" "number too large to fit in target type") ∧
      Location.at? "\x7b\"ä\nü\"=99999999999999999999" entry.token.start = some ⟨2, 4⟩ :=
  (locations_exact {} _).2.2 ⟨2, 4⟩ _ (show parseWith {} _ = _ from rfl)

end PropertyList

end ScanTree
