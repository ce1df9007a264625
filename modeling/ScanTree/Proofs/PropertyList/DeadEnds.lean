import ScanTree.Proofs.PropertyList.Choices
import ScanTree.Proofs.PropertyList.Locations

/-!
Dead ends: spots from which no scan comes to the end of its text with nothing open.

A text that was cut leaves the scan at such a spot, whatever it was cut in. What is left of a token
may be read as another one, but what closes the brackets is gone.
-/

namespace ScanTree.PropertyList

open Pattern

/-- No scan at the spot comes to where a text has been read. -/
def Dead (x : Spot) : Prop :=
  ∀ s, Stands s x → ∀ es s', Pulls s es s' → ¬ Stands s' ⟨"end", [], []⟩

variable {x : Spot} {q q' : String} {tails tails' : List String} {u : List Char}
  {rules : List (Rule Tag Nesting)} {r : Rule Tag Nesting} {n : Nat} {tag : Tag}

/-- **Run**: what every choice keeps, and what does not hold where a text has been read. -/
lemma dead_of_invariant {P : Spot → Prop} (hend : ¬ P ⟨"end", [], []⟩)
    (hstep : ∀ y r n rules, P y → Chosen y r n rules → P (y.past r n)) (hx : P x) : Dead x := by
  intro s hs es s' hp hs'
  induction hp generalizing x with
  | nil s =>
    rw [hs.unique hs'] at hx
    exact hend hx
  | cons hn _ ih =>
    obtain ⟨r, n, hchoice, -, -, hnext⟩ := hs.next hn
    obtain ⟨rules, hchosen⟩ := hchoice.chosen
    exact ih (hstep _ _ _ _ hx hchosen) hnext hs'

lemma dead_of_past (hx : x ≠ ⟨"end", [], []⟩) (h : ∀ r n, Chooses x r n → Dead (x.past r n)) :
    Dead x := by
  rintro s hs es s' hp hs'
  rcases hp with _ | ⟨hn, hp⟩
  · exact hx (hs.unique hs')
  · obtain ⟨r, n, hchoice, -, -, hnext⟩ := hs.next hn
    exact h r n hchoice _ hnext _ _ hp hs'

/-! ### The end of the text -/

/-- At the end of the text nothing can be closed any more. -/
lemma dead_at_end (hq : q ≠ "end") (tails : List String) : Dead ⟨q, tails, []⟩ := by
  refine dead_of_invariant (P := fun y => y.state ≠ "end" ∧ y.text = []) (by simp)
    (fun y r n rules h hchosen => ?_) ⟨hq, rfl⟩
  have hle := hchosen.le
  rw [h.2] at hle
  obtain ⟨-, hmain⟩ := hchosen.idle (Nat.le_zero.1 hle)
  refine ⟨by rw [hmain]; decide, ?_⟩
  show y.text.drop n = []
  rw [h.2, List.drop_nil]

/-! ### Without closing brackets -/

def Open (q : String) (tails : List String) : Prop := tails ≠ [] ∨ q = "data"

def closers : List Char := [')', '\x7d', '>']

lemma low_of_closer {c : Char} (hc : c ∈ closers) : c.toNat < 0xd800 := by
  simp only [closers, List.mem_cons, List.not_mem_nil, or_false] at hc
  rcases hc with rfl | rfl | rfl <;> decide

lemma closer_of_tag (hq : (q, rules) ∈ ruleTable) (hr : r ∈ rules)
    (htag : tagOf r = .stop .array ∨ tagOf r = .stop .dict ∨ tagOf r = .stop .data) :
    ∃ c ∈ closers, r.ownPattern = .set (.char c) := by
  have hmem := forall_rule
    (f := fun _ p tag => tag = .stop .array ∨ tag = .stop .dict ∨ tag = .stop .data →
      p ∈ closers.map fun c => .set (.char c)) (by decide) hq hr htag
  obtain ⟨c, hc, hp⟩ := List.mem_map.1 hmem
  exact ⟨c, hc, hp.symm⟩

/-- Only a closing bracket closes what is open. -/
lemma Open.move (h : Open q tails) (hm : Move q tails tag q' tails')
    (htag : ¬ (tag = .stop .array ∨ tag = .stop .dict ∨ tag = .stop .data)) : Open q' tails' := by
  cases hm with
  | blank => exact h
  | scalar => exact .inl (h.resolve_right (by decide))
  | openArray => exact .inl (by simp)
  | openDict => exact .inl (by simp)
  | openData => exact .inr rfl
  | openString => exact .inl (h.resolve_right (by decide))
  | chunk => exact .inr rfl
  | closeData => exact absurd (by simp) htag
  | part => exact h
  | closeString _ _ hq => exact .inl (h.resolve_right (by rintro rfl; simp at hq))
  | element _ _ hq => exact .inl (h.resolve_right (by rintro rfl; simp at hq))
  | closeArray => exact absurd (by simp) htag
  | comma => exact .inl (h.resolve_right (by decide))
  | semicolon => exact .inl (h.resolve_right (by decide))
  | closeDict => exact absurd (by simp) htag
  | key => exact .inl (h.resolve_right (by decide))
  | equals => exact .inl (h.resolve_right (by decide))

lemma dead_of_open (h : Open q tails) (hu : ∀ c ∈ closers, c ∉ u) : Dead ⟨q, tails, u⟩ := by
  refine dead_of_invariant (P := fun y => Open y.state y.tails ∧ ∀ c ∈ closers, c ∉ y.text)
    (by simp [Open]) (fun y r n rules hy hchosen => ⟨hy.1.move hchosen.move fun htag => ?_, ?_⟩)
    ⟨h, hu⟩
  · obtain ⟨c, hc, hp⟩ := closer_of_tag hchosen.state hchosen.rule htag
    have hspells := hchosen.spells
    rw [hp] at hspells
    obtain ⟨d, hd, hw⟩ := hspells
    rw [(CharSet.contains_char (low_of_closer hc)).1 hd] at hw
    exact hy.2 c hc (List.mem_of_mem_take (by rw [hw]; exact List.mem_singleton.2 rfl))
  · exact fun c hc hmem => hy.2 c hc (List.mem_of_mem_drop hmem)

/-! ### Cut blanks -/

def blankChars : List Char := ['\n', '\t', '\r', ' ', '/']

/-- In `main` blanks change nothing. -/
lemma Move.of_skip (hm : Move q tails tag q' tails') (hq : q = "main") (h : tag.role = .skip) :
    q' = "main" ∧ tails' = tails := by
  cases hm with
  | blank => exact ⟨hq, rfl⟩
  | scalar => cases h
  | openArray => cases h
  | openDict => cases h
  | openData => cases h
  | openString => cases h
  | element _ _ h' => exact absurd hq (by rcases h' with rfl | rfl <;> decide)
  | closeArray => cases h
  | closeDict => cases h
  | part => cases h
  | closeString => cases h
  | _ => exact absurd hq (by decide)

/-- Before the first token, blanks alone lead to no value. -/
lemma dead_of_blanks (hu : ∀ c ∈ u, c ∈ blankChars) : Dead ⟨"main", [], u⟩ := by
  refine dead_of_invariant
    (P := fun y => y.state = "main" ∧ y.tails = [] ∧ ∀ c ∈ y.text, c ∈ blankChars) (by simp)
    (fun y r n rules hy hchosen => ?_) ⟨rfl, rfl, hu⟩
  obtain ⟨hstate, htails, htext⟩ := hy
  have hskip : (tagOf r).role = .skip := by
    have hopens := hchosen.opens
    rcases hy : y.text with _ | ⟨c, cs⟩
    · have hle := hchosen.le
      rw [hy] at hle
      obtain ⟨hidle, -⟩ := hchosen.idle (Nat.le_zero.1 hle)
      rw [hstate] at hidle
      cases hidle
    · rw [hy] at hopens htext
      exact forall_rule (f := fun q p tag => q = "main" →
        blankChars.any (fun c => p.opens (some c)) = true → tag.role = .skip) (by decide)
        hchosen.state hchosen.rule hstate
        (List.any_eq_true.2 ⟨c, htext c List.mem_cons_self, hopens⟩)
  obtain ⟨hmain, hsame⟩ := hchosen.move.of_skip hstate hskip
  exact ⟨hmain, hsame.trans htails, fun c hc => htext c (List.mem_of_mem_drop hc)⟩

/-- All states but those in strings begin with the rules for blanks. -/
lemma exists_spaceRules (hq : (q, rules) ∈ ruleTable) (hstring : q ≠ "string")
    (hsstring : q ≠ "sstring") : ∃ more, rules = spaceRules ++ more := by
  have hall : ∀ e ∈ ruleTable, e.1 ≠ "string" → e.1 ≠ "sstring" →
      ∃ more, e.2 = spaceRules ++ more := by
    simp [ruleTable]
  exact hall _ hq hstring hsstring

lemma ownPattern_lineComment :
    (rule "//[^\\n]*" (.skip .comment) .stay).ownPattern = lineCommentPattern :=
  ownPattern_eq (k := 10) (i := 2) rfl rfl rfl rfl

lemma contains_lineSet {c : Char} :
    CharSet.contains ⟨[(0, 9), (11, 1112063)]⟩ c = true ↔ c ≠ '\n' := by
  have hlast : CharSet.rank c.toNat ≤ 1112063 := CharSet.rank_le_lastRank c
  have h9 : CharSet.rank c.toNat ≤ 9 ↔ c.toNat ≤ 9 := CharSet.rank_le_iff (by omega)
  have h11 : 11 ≤ CharSet.rank c.toNat ↔ 11 ≤ c.toNat := CharSet.le_rank_iff (by omega)
  simp only [CharSet.contains, CharSet.has, List.any_cons, List.any_nil, Bool.or_false,
    Bool.or_eq_true, Bool.and_eq_true, decide_eq_true_eq, ne_eq, ← Char.toNat_inj]
  show _ ↔ ¬ c.toNat = 10
  omega

lemma picks_lineComment (hq : (q, spaceRules ++ rules) ∈ ruleTable) {t rest : List Char}
    (ht : '\n' ∉ t) (hrest : ∀ c ∈ rest.head?, c = '\n') :
    Picks (spaceRules ++ rules) 2 (rule "//[^\\n]*" (.skip .comment) .stay) ('/' :: '/' :: t)
      rest := by
  have hslash : (CharSet.char '/').contains '/' = true := (CharSet.contains_char (by decide)).2 rfl
  have hrefuses : refuses ((spaceRules ++ rules).take 2) (some '/') = true := by
    show refuses (spaceRules.take 2) (some '/') = true
    rw [refuses_take patterns_spaceRules]
    decide
  refine picks_of_refuses hq rfl hrefuses fun run hrun => ?_
  rw [ownPattern_lineComment]
  have hone : (run.ahead 1).place.rest = '/' :: (t ++ rest) := by rw [Run.rest_ahead, hrun]; rfl
  have htwo : ((run.ahead 1).ahead 1).place.rest = t ++ rest := by rw [Run.rest_ahead, hone]; rfl
  have hlength : ('/' :: '/' :: t).length = 1 + (1 + t.length) := by
    simp only [List.length_cons]
    omega
  have hstop : (rest.head?.any fun c => CharSet.contains ⟨[(0, 9), (11, 1112063)]⟩ c) = false := by
    rcases rest with _ | ⟨c, cs⟩
    · rfl
    · rw [List.head?_cons, Option.any_some, hrest c rfl, ← Bool.not_eq_true, contains_lineSet]
      exact not_not.2 rfl
  rw [hlength]
  refine (leads_set hrun hslash).seq ((leads_set hone hslash).seq
    (leads_rep_set htwo (fun c hc => ?_) (Nat.zero_le _) (by simp) (.inr hstop)))
  exact contains_lineSet.2 fun h => ht (h ▸ hc)

/-- A text that was cut in a comment up to the end of the line has come to its end after that. -/
lemma dead_of_lineComment (hq : q ≠ "string" ∧ q ≠ "sstring" ∧ q ≠ "end") (tails : List String)
    {t : List Char} (ht : '\n' ∉ t) : Dead ⟨q, tails, '/' :: '/' :: t⟩ := by
  refine dead_of_past (by simp) fun r n h => ?_
  obtain ⟨rules, -, -, hmem, -⟩ := id h
  obtain ⟨more, rfl⟩ := exists_spaceRules hmem hq.1 hq.2.1
  have hchoice : Chooses ⟨q, tails, '/' :: '/' :: t ++ []⟩
      (rule "//[^\\n]*" (.skip .comment) .stay) ('/' :: '/' :: t).length :=
    (picks_lineComment hmem ht (by simp)).chooses hmem
  rw [List.append_nil] at hchoice
  obtain ⟨rfl, rfl⟩ := hchoice.unique h
  have hpast : Spot.past ⟨q, tails, '/' :: '/' :: t⟩ (rule "//[^\\n]*" (.skip .comment) .stay)
      ('/' :: '/' :: t).length = ⟨q, tails, []⟩ := by
    rw [Spot.past, List.drop_length]
    rfl
  rw [hpast]
  exact dead_at_end hq.2.2 tails

/-! ### Cut tokens over several lines -/

/-- What a lazy comment takes is the shortest that there is. -/
lemma shortest_blockComment : blockCommentPattern.Shortest :=
  (((ascends_lazy .any none).seq ((measures_set _).seq (measures_set _))).after_set _
    |>.after_set _).shortest

lemma Move.of_key (hm : Move q tails tag q' tails') (h : tag = .leaf .key) : q' = "afterKey" := by
  cases hm with
  | key => rfl
  | scalar _ _ hkind => cases h; simp at hkind
  | part _ _ _ _ hkind => cases h; simp at hkind
  | _ => cases h

lemma slash_rules (hq : (q, rules) ∈ ruleTable) (hr : r ∈ rules)
    (hstring : q ≠ "string" ∧ q ≠ "sstring") (hopens : r.ownPattern.opens (some '/') = true) :
    r.ownPattern = lineCommentPattern ∨ r.ownPattern = blockCommentPattern ∨
      (r.ownPattern = bareKeyPattern ∧ tagOf r = .leaf .key) ∨ r.ownPattern = .empty :=
  forall_rule (f := fun q p tag => q ≠ "string" ∧ q ≠ "sstring" → p.opens (some '/') = true →
    p = lineCommentPattern ∨ p = blockCommentPattern ∨ (p = bareKeyPattern ∧ tag = .leaf .key) ∨
      p = .empty) (by decide) hq hr hstring hopens

lemma not_spells_lineComment (t : List Char) (n : Nat) :
    ¬ lineCommentPattern.Spells (('/' :: '*' :: t).take n) := by
  rintro ⟨a, _, ha, ⟨b, v, hb, -, rfl⟩, hw⟩
  obtain rfl := spells_char (by decide) ha
  obtain rfl := spells_char (by decide) hb
  have hprefix : '/' :: '/' :: v <+: '/' :: '*' :: t := by
    have := List.take_prefix n ('/' :: '*' :: t)
    rwa [hw] at this
  have := (List.cons_prefix_cons.1 (List.cons_prefix_cons.1 hprefix).2).1
  exact absurd this (by decide)

/-- Of a comment in stars that has no end yet, a token is the slash, as a key, or nothing. -/
lemma Chosen.of_cut_comment {t : List Char} (h : Chosen ⟨q, tails, '/' :: '*' :: t⟩ r n rules)
    (hq : q ≠ "string" ∧ q ≠ "sstring")
    (hnone : ∀ place : Place, place.rest = '/' :: '*' :: t →
      blockCommentPattern.match? place = none) : n = 0 ∨ n = 1 ∧ tagOf r = .leaf .key := by
  have hspells := h.spells
  rcases slash_rules h.state h.rule hq h.opens with hp | hp | ⟨hp, htag⟩ | hp
  · rw [hp] at hspells
    exact absurd hspells (not_spells_lineComment t n)
  · obtain ⟨place, stop, hplace, hfound, -⟩ := h.found
    rw [hp, hnone place hplace] at hfound
    cases hfound
  · rw [hp] at hspells
    obtain ⟨hset, -, -⟩ := spells_rep_set.1 hspells
    rcases n with _ | _ | n
    · exact .inl rfl
    · exact .inr ⟨rfl, htag⟩
    · exact absurd (hset '*' (by simp)) (by decide)
  · rw [hp] at hspells
    have hnil : ('/' :: '*' :: t).take n = [] := hspells
    exact .inl (by simpa using hnil)

/-- The slash of a comment that was cut may be a key, but then the star is none. -/
lemma dead_of_blockComment (hq : q ≠ "string" ∧ q ≠ "sstring") (tails : List String) {t : List Char}
    (hnone : ∀ place : Place, place.rest = '/' :: '*' :: t →
      blockCommentPattern.match? place = none) :
    Dead ⟨q, tails, '/' :: '*' :: t⟩ := by
  refine dead_of_invariant (P := fun y =>
      (y.state ≠ "string" ∧ y.state ≠ "sstring") ∧ y.text = '/' :: '*' :: t ∨
      y.state = "afterKey" ∧ y.text = '*' :: t) (by simp)
    (fun y r n rules hy hchosen => ?_) (.inl ⟨hq, rfl⟩)
  obtain ⟨q', tails', text⟩ := y
  rcases hy with ⟨hstate, rfl⟩ | ⟨hstate, rfl⟩
  · rcases hchosen.of_cut_comment hstate hnone with rfl | ⟨rfl, htag⟩
    · obtain ⟨-, hmain⟩ := hchosen.idle rfl
      exact .inl ⟨by rw [hmain]; decide, rfl⟩
    · exact .inr ⟨hchosen.move.of_key htag, rfl⟩
  · have hopens := hchosen.opens
    have := forall_rule (f := fun q p _ => q = "afterKey" → p.opens (some '*') = false)
      (by decide) hchosen.state hchosen.rule hstate
    rw [List.head?_cons, this] at hopens
    cases hopens

lemma Move.of_chars (hm : Move q tails tag q' tails') (h : tag = .leaf .chars) : q' = q := by
  cases hm with
  | part => rfl
  | scalar _ _ hkind => cases h; simp at hkind
  | chunk => rfl
  | key => cases h
  | _ => cases h

lemma dead_of_chars (h : q = "string" ∧ (∀ c ∈ u, insideSet.contains c = true) ∨
    q = "sstring" ∧ ∀ c ∈ u, singleSet.contains c = true) (tails : List String) :
    Dead ⟨q, tails, u⟩ := by
  refine dead_of_invariant (P := fun y =>
      y.state = "string" ∧ (∀ c ∈ y.text, insideSet.contains c = true) ∨
      y.state = "sstring" ∧ ∀ c ∈ y.text, singleSet.contains c = true) (by simp)
    (fun y r n rules hy hchosen => ?_) h
  have hspells := hchosen.spells
  have hpattern := forall_rule (f := fun q p tag =>
      (q = "string" → tag = .leaf .chars ∨ p = escapePattern ∨ p = .set (.char '"')) ∧
      (q = "sstring" → tag = .leaf .chars ∨ p = quotesPattern ∨ p = .set (.char '\'')))
    (by decide) hchosen.state hchosen.rule
  have hrest : ∀ c ∈ (y.past r n).text, c ∈ y.text := fun c hc => List.mem_of_mem_drop hc
  have htaken : ∀ c ∈ y.text.take n, c ∈ y.text := fun c hc => List.mem_of_mem_take hc
  rcases hy with ⟨hstate, htext⟩ | ⟨hstate, htext⟩
  · rcases hpattern.1 hstate with htag | hp | hp
    · exact .inl ⟨(hchosen.move.of_chars htag).trans hstate, fun c hc => htext c (hrest c hc)⟩
    · rw [hp] at hspells
      obtain ⟨a, v, ha, -, hw⟩ := hspells
      obtain rfl := spells_char (by decide) ha
      exact absurd (htext '\\' (htaken _ (by rw [hw]; simp))) (by decide)
    · rw [hp] at hspells
      have hquote := htaken '"' (by rw [spells_char (by decide) hspells]; simp)
      exact absurd (htext '"' hquote) (by decide)
  · rcases hpattern.2 hstate with htag | hp | hp
    · exact .inr ⟨(hchosen.move.of_chars htag).trans hstate, fun c hc => htext c (hrest c hc)⟩
    · rw [hp] at hspells
      obtain ⟨a, v, ha, -, hw⟩ := hspells
      obtain rfl := spells_char (by decide) ha
      exact absurd (htext '\'' (htaken _ (by rw [hw]; simp))) (by decide)
    · rw [hp] at hspells
      have hquote := htaken '\'' (by rw [spells_char (by decide) hspells]; simp)
      exact absurd (htext '\'' hquote) (by decide)

/-- The quotes of a key are not to be had in two ways. -/
lemma quoted_unique {ws ws' : List (List Char)} {a b : List Char}
    (hws : ∀ w ∈ ws, (oneOrTwo insideSet (.char '\\') .any).Spells w)
    (hws' : ∀ w ∈ ws', (oneOrTwo insideSet (.char '\\') .any).Spells w)
    (h : ws.flatten ++ '"' :: a = ws'.flatten ++ '"' :: b) : ws.flatten = ws'.flatten := by
  have hcases : ∀ w, (oneOrTwo insideSet (.char '\\') .any).Spells w →
      (∃ c, c ≠ '"' ∧ c ≠ '\\' ∧ w = [c]) ∨ ∃ c, w = ['\\', c] := by
    rintro w (⟨c, hc, rfl⟩ | ⟨u, v, hu, ⟨c, -, rfl⟩, rfl⟩)
    · obtain ⟨hquote, hslash⟩ := contains_insideSet.1 hc
      exact .inl ⟨c, hquote, hslash, rfl⟩
    · rw [spells_char (by decide) hu]
      exact .inr ⟨c, rfl⟩
  induction ws generalizing ws' with
  | nil =>
    rcases ws' with _ | ⟨w', ws'⟩
    · rfl
    · rcases hcases w' (hws' w' List.mem_cons_self) with ⟨c, hc, -, rfl⟩ | ⟨c, rfl⟩
      · exact absurd (List.cons.inj h).1.symm hc
      · exact absurd (List.cons.inj h).1 (by decide)
  | cons w ws ih =>
    have hw := hcases w (hws w List.mem_cons_self)
    rcases ws' with _ | ⟨w', ws'⟩
    · rcases hw with ⟨c, hc, -, rfl⟩ | ⟨c, rfl⟩
      · exact absurd (List.cons.inj h).1 hc
      · exact absurd (List.cons.inj h).1 (by decide)
    · have ih : ws.flatten ++ '"' :: a = ws'.flatten ++ '"' :: b → ws.flatten = ws'.flatten :=
        ih (fun u hu => hws u (List.mem_cons_of_mem _ hu))
          fun u hu => hws' u (List.mem_cons_of_mem _ hu)
      have hsame : w = w' ∧ ws.flatten ++ '"' :: a = ws'.flatten ++ '"' :: b := by
        rw [List.flatten_cons, List.flatten_cons, List.append_assoc, List.append_assoc] at h
        rcases hw with ⟨c, -, hc, rfl⟩ | ⟨c, rfl⟩ <;>
          rcases hcases w' (hws' w' List.mem_cons_self) with ⟨d, -, hd, rfl⟩ | ⟨d, rfl⟩
        · simpa using h
        · exact absurd (List.cons.inj h).1 hc
        · exact absurd (List.cons.inj h).1.symm hd
        · simpa using h
      rw [List.flatten_cons, List.flatten_cons, hsame.1, ih hsame.2]

lemma shortest_quoted : quotedPattern.Shortest := by
  intro run first hfirst s hs
  obtain ⟨w, hw, hrest, htaken⟩ := covers_of_mem_ways (List.mem_of_mem_head? hfirst)
  obtain ⟨w', hw', hrest', htaken'⟩ := covers_of_mem_ways hs
  obtain ⟨o, _, ho, ⟨_, c, ⟨ws, hws, -, -, rfl⟩, hc, rfl⟩, rfl⟩ := hw
  obtain ⟨o', _, ho', ⟨_, c', ⟨ws', hws', -, -, rfl⟩, hc', rfl⟩, rfl⟩ := hw'
  obtain rfl := spells_char (by decide) ho
  obtain rfl := spells_char (by decide) ho'
  obtain rfl := spells_char (by decide) hc
  obtain rfl := spells_char (by decide) hc'
  have hflat := quoted_unique hws hws' (by simpa using hrest.symm.trans hrest')
  rw [htaken, htaken', hflat]

/-- Without its last quote a key is none. -/
lemma dead_of_quoted (tails : List String) {t : List Char}
    (hnone : ∀ place : Place, place.rest = '"' :: t → quotedPattern.match? place = none) :
    Dead ⟨"beforeKey", tails, '"' :: t⟩ := by
  refine dead_of_past (by simp) fun r n h => ?_
  obtain ⟨rules, hchosen⟩ := h.chosen
  have hp := forall_rule (f := fun q p _ => q = "beforeKey" → p.opens (some '"') = true →
    p = quotedPattern) (by decide) hchosen.state hchosen.rule rfl hchosen.opens
  obtain ⟨place, stop, hplace, hfound, -⟩ := hchosen.found
  rw [hp, hnone place hplace] at hfound
  cases hfound

/-! ### Tokens beyond the cut -/

variable {y : List Char} {v : List Char}

/-- What stays of a token that goes beyond the cut. -/
lemma Chosen.beyond (h : Chosen ⟨q, tails, u ++ v⟩ r n rules) (hlt : u.length < n) :
    ∃ y, y ≠ [] ∧ y <+: v ∧ r.ownPattern.Spells (u ++ y) := by
  have hle : n ≤ u.length + v.length := by simpa using h.le
  have hsplit : (u ++ v).take n = u ++ v.take (n - u.length) := by
    rw [List.take_append, List.take_of_length_le (Nat.le_of_lt hlt)]
  refine ⟨v.take (n - u.length), ?_, List.take_prefix _ v, hsplit ▸ h.spells⟩
  refine List.ne_nil_of_length_pos ?_
  rw [List.length_take]
  omega

/-- A token that goes beyond the cut, if it is the shortest of its kind, is none without the
rest. -/
lemma Chosen.match?_eq_none (h : Chosen ⟨q, tails, u ++ v⟩ r n rules) (hlt : u.length < n)
    (hs : r.ownPattern.Shortest) (hb : r.ownPattern.isBlind = true) {place : Place}
    (hplace : place.rest = u) : r.ownPattern.match? place = none := by
  obtain ⟨place', stop, hplace', hfound, rfl⟩ := h.found
  exact hs.match?_eq_none (isPlain_of_rule h.state h.rule) hb (by rw [hplace', hplace]) hfound
    (by rwa [hplace])

lemma prefix_of_two {a b : Char} {u y w : List Char} (h : u ++ y = a :: b :: w) :
    u = [] ∨ u = [a] ∨ ∃ t, u = a :: b :: t ∧ t ++ y = w := by
  rcases u with _ | ⟨c, _ | ⟨d, t⟩⟩
  · exact .inl rfl
  · obtain ⟨rfl, -⟩ := List.cons.inj h
    exact .inr (.inl rfl)
  · simp only [List.cons_append, List.cons.injEq] at h
    obtain ⟨rfl, rfl, h⟩ := h
    exact .inr (.inr ⟨t, rfl, h⟩)

lemma prefix_of_lineComment (h : lineCommentPattern.Spells (u ++ y)) :
    u = [] ∨ u = ['/'] ∨ ∃ t, u = '/' :: '/' :: t ∧ '\n' ∉ t := by
  obtain ⟨a, _, ha, ⟨b, w, hb, hw, rfl⟩, hsplit⟩ := h
  obtain rfl := spells_char (by decide) ha
  obtain rfl := spells_char (by decide) hb
  obtain ⟨hset, -, -⟩ := spells_rep_set.1 hw
  refine (prefix_of_two hsplit).imp_right (Or.imp_right ?_)
  rintro ⟨t, rfl, rfl⟩
  exact ⟨t, rfl, fun ht => contains_lineSet.1 (hset _ (List.mem_append_left _ ht)) rfl⟩

lemma prefix_of_blockComment (h : blockCommentPattern.Spells (u ++ y)) :
    u = [] ∨ u = ['/'] ∨ ∃ t, u = '/' :: '*' :: t := by
  obtain ⟨a, _, ha, ⟨b, w, hb, -, rfl⟩, hsplit⟩ := h
  obtain rfl := spells_char (by decide) ha
  obtain rfl := spells_char (by decide) hb
  exact (prefix_of_two hsplit).imp_right (Or.imp_right fun ⟨t, hu, _⟩ => ⟨t, hu⟩)

lemma dead_of_cut_lineComment (h : Chosen ⟨q, tails, u ++ v⟩ r n rules) (hlt : u.length < n)
    (hp : r.ownPattern = lineCommentPattern) (hq : q ≠ "string" ∧ q ≠ "sstring" ∧ q ≠ "end")
    (hslash : u = ['/'] → Dead ⟨q, tails, u⟩) : Dead ⟨q, tails, u⟩ := by
  obtain ⟨y, -, -, hspells⟩ := h.beyond hlt
  rw [hp] at hspells
  rcases prefix_of_lineComment hspells with rfl | hu | ⟨t, rfl, ht⟩
  · exact dead_at_end hq.2.2 tails
  · exact hslash hu
  · exact dead_of_lineComment hq tails ht

lemma dead_of_cut_blockComment (h : Chosen ⟨q, tails, u ++ v⟩ r n rules) (hlt : u.length < n)
    (hp : r.ownPattern = blockCommentPattern) (hq : q ≠ "string" ∧ q ≠ "sstring")
    (hslash : u = [] ∨ u = ['/'] → Dead ⟨q, tails, u⟩) : Dead ⟨q, tails, u⟩ := by
  obtain ⟨y, -, -, hspells⟩ := h.beyond hlt
  rw [hp] at hspells
  rcases prefix_of_blockComment hspells with hu | hu | ⟨t, rfl⟩
  · exact hslash (.inl hu)
  · exact hslash (.inr hu)
  · refine dead_of_blockComment hq tails fun place hplace => ?_
    rw [← hp]
    exact h.match?_eq_none hlt (by rw [hp]; exact shortest_blockComment) (by rw [hp]; rfl) hplace

lemma dead_of_cut_chars (h : Chosen ⟨q, tails, u ++ v⟩ r n rules) (hlt : u.length < n)
    (hp : q = "string" ∧ r.ownPattern = charsPattern ∨
      q = "sstring" ∧ r.ownPattern = rep (.set singleSet) 1 none true) : Dead ⟨q, tails, u⟩ := by
  obtain ⟨y, -, -, hspells⟩ := h.beyond hlt
  refine dead_of_chars ?_ tails
  rcases hp with ⟨hq, hp⟩ | ⟨hq, hp⟩
  · rw [hp] at hspells
    obtain ⟨hset, -, -⟩ := spells_rep_set.1 hspells
    exact .inl ⟨hq, fun c hc => hset c (List.mem_append_left _ hc)⟩
  · rw [hp] at hspells
    obtain ⟨hset, -, -⟩ := spells_rep_set.1 hspells
    exact .inr ⟨hq, fun c hc => hset c (List.mem_append_left _ hc)⟩

lemma dead_of_cut_quoted (h : Chosen ⟨"beforeKey", tails, u ++ v⟩ r n rules) (hlt : u.length < n)
    (hp : r.ownPattern = quotedPattern) : Dead ⟨"beforeKey", tails, u⟩ := by
  have hnone : ∀ place : Place, place.rest = u → r.ownPattern.match? place = none :=
    fun _ hplace =>
      h.match?_eq_none hlt (by rw [hp]; exact shortest_quoted) (by rw [hp]; rfl) hplace
  obtain ⟨y, -, -, hspells⟩ := h.beyond hlt
  rw [hp] at hspells hnone
  rcases u with _ | ⟨c, t⟩
  · exact dead_at_end (by decide) tails
  · obtain ⟨a, _, ha, -, hsplit⟩ := hspells
    obtain rfl := spells_char (by decide) ha
    obtain ⟨rfl, -⟩ := List.cons.inj hsplit
    exact dead_of_quoted tails hnone

/-- **Lines**: where a token of a text with a further line goes beyond the end of the text, the text
alone is at a dead end. -/
theorem dead_of_line_beyond {more : List Char} (h : Chooses ⟨q, tails, u ++ '\n' :: more⟩ r n)
    (hlt : u.length < n) (hu : u ≠ []) : Dead ⟨q, tails, u⟩ := by
  obtain ⟨rules, hc⟩ := h.chosen
  have hpattern := forall_rule (f := fun q p _ => p.avoids '\n' = true ∨ p = newlinePattern ∨
      (p = blockCommentPattern ∧ q ≠ "string" ∧ q ≠ "sstring") ∨
      (q = "string" ∧ p = charsPattern ∨ q = "sstring" ∧ p = rep (.set singleSet) 1 none true) ∨
      q = "beforeKey" ∧ p = quotedPattern)
    (by decide) hc.state hc.rule
  obtain ⟨y, hy, hprefix, hspells⟩ := hc.beyond hlt
  obtain ⟨y, rfl⟩ : ∃ y', y = '\n' :: y' := by
    rcases y with _ | ⟨c, y⟩
    · exact absurd rfl hy
    · exact ⟨y, by rw [(List.cons_prefix_cons.1 hprefix).1]⟩
  rcases hpattern with hp | hp | ⟨hp, hq⟩ | hp | ⟨rfl, hp⟩
  · exact absurd (by simp) (not_mem_of_spells hp hspells)
  · -- After a line feed there is a carriage return at most.
    rw [hp] at hspells
    obtain ⟨a, b, ha, hb, hsplit⟩ := hspells
    obtain rfl := spells_char (by decide) ha
    obtain ⟨hset, -, -⟩ := spells_rep_set.1 hb
    obtain ⟨c, t, rfl⟩ := List.exists_cons_of_ne_nil hu
    have htail : t ++ '\n' :: y = b := (List.cons.inj hsplit).2
    exact absurd (hset '\n' (by rw [← htail]; simp)) (by decide)
  · refine dead_of_cut_blockComment hc hlt hp hq ?_
    rintro (rfl | rfl)
    · exact absurd rfl hu
    · rw [hp] at hspells
      obtain ⟨a, _, ha, ⟨b, w, hb, -, rfl⟩, hsplit⟩ := hspells
      obtain rfl := spells_char (by decide) ha
      obtain rfl := spells_char (by decide) hb
      exact absurd (List.cons.inj (List.cons.inj hsplit).2).1 (by decide)
  · exact dead_of_cut_chars hc hlt hp
  · exact dead_of_cut_quoted hc hlt hp

/-! ### Texts that are read -/

lemma Phrase.tokens_ne_nil (p : Phrase) : p.tokens ≠ [] := by
  cases p <;> simp [Phrase.tokens]

variable {options : Options} {input : String}

/-- A scan stops at a place where no rule matches, and ends only at the end of the text. -/
lemma At.rest_of_ended {s s' : Scan Tag Nesting} {place : Place} (h : At s q tails place)
    (hq : (q, rules) ∈ ruleTable) {log : List Record} (hn : s.next = (.ended, s', log)) :
    place.rest = [] := by
  have hnext := h.next_eq hq
  rcases hpick : pick? place rules with _ | ⟨r, stop⟩
  · rw [hpick] at hnext
    have hunmatched : s.unmatched place = .ended := (Prod.mk.inj (hn.symm.trans hnext)).1.symm
    unfold Scan.unmatched at hunmatched
    split_ifs at hunmatched with hempty
    simpa using hempty
  · rw [hpick] at hnext
    obtain ⟨t, mid, log', hnext, -⟩ := hnext
    cases hn.symm.trans hnext

/-- The scan of a text that is read comes to its end with nothing open, and gives the tokens of a
phrase that means the value. -/
lemma pulls_of_parse {v : Value} (h : parseWith options input = .ok v) :
    ∃ es s, ∃ p : Phrase, Pulls (scan input options.excerptLength) es s ∧
      Stands s ⟨"end", [], []⟩ ∧ (tokens input options.excerptLength).1 = es ∧
      p.tokens = skeleton es ∧ p.value = .ok v ∧ AllFit (skeleton es) := by
  obtain ⟨pull, hscanned⟩ := scanned input options
  obtain ⟨rfl, p, hp, hv⟩ := phrase_of_parseWith hscanned h
  have hfit := (p.value_iff (by rw [hp]; exact hscanned.spelled)).1 ⟨v, hv⟩
  obtain ⟨tree, htree, -⟩ := tree_of_parseWith h
  obtain ⟨-, b, hfeed, hframes, -⟩ := finished_of_tree hscanned htree
  have hstopped := hscanned.stopped
  rcases hd : tokens input options.excerptLength with ⟨es, s', stop⟩
  rw [hd] at hp hfeed hstopped
  obtain rfl : stop = some .ended := hstopped
  obtain ⟨s, log, hpulls, hn, -⟩ := Scan.stop_of_drain hd
  obtain ⟨q, tails, place, hat, hnested, hreached⟩ :=
    reached_of_pulls (at_scan input options.excerptLength) hpulls
  obtain ⟨rfl, hleaf⟩ := top_of_feed hpulls hat hfeed hframes
  rcases hreached.complete hnested hleaf with hnil | ⟨rfl, -⟩
  · exact absurd (hp.trans hnil) p.tokens_ne_nil
  · have hrest := hat.rest_of_ended (List.mem_of_getElem? (i := 10) rfl) hn
    exact ⟨es, s, p, hpulls, ⟨place, hat, hrest⟩, rfl, hp, hv, by rwa [← hp]⟩

lemma parse_of_dead (h : Dead ⟨"main", [], input.toList⟩) :
    ∃ e, parseWith options input = .error e := by
  rcases hparse : parseWith options input with e | v
  · exact ⟨e, rfl⟩
  · obtain ⟨es, s, -, hpulls, hend, -⟩ := pulls_of_parse hparse
    exact absurd hend (h _ (stands_scan input options.excerptLength) _ _ hpulls)

end ScanTree.PropertyList
