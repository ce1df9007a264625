import ScanTree.Proofs.PropertyList.DeadEnds

/-!
Texts that were cut before their last bracket are not read.

Up to the bracket that closes the value something is open, or nothing has been read yet. Where the
text is cut between two tokens, the scan has come to its end too early. Where it is cut in a token,
the next token is another one, or there is none, but all that is left leads to a dead end.
-/

namespace ScanTree.PropertyList

open Pattern Text

/-! ### Before the last bracket -/

def Live (q : String) (tails : List String) : Prop := Open q tails ∨ q = "main" ∧ tails = []

variable {q q' : String} {tails tails' : List String} {tag : Tag} {u v : List Char}
  {rules : List (Rule Tag Nesting)} {r : Rule Tag Nesting} {n : Nat} {kind : Kind}

lemma Live.ne_end (h : Live q tails) (hn : Nested q tails) : q ≠ "end" := by
  rintro rfl
  rcases h with (htails | hdata) | ⟨hmain, -⟩
  · exact htails (hn.ended rfl)
  · exact absurd hdata (by decide)
  · exact absurd hmain (by decide)

lemma open_of_head {tail : String} (h : tails.head? = some tail) : Open q tails := by
  refine .inl ?_
  rintro rfl
  cases h

lemma live_of_main (tails : List String) : Live "main" tails := by
  rcases tails with _ | ⟨tail, tails⟩
  · exact .inr ⟨rfl, rfl⟩
  · exact .inl (.inl (by simp))

lemma Live.back (h : Live q' tails') (hm : Move q tails tag q' tails') (hn : Nested q tails) :
    Live q tails := by
  cases hm with
  | blank => exact h
  | scalar => exact live_of_main tails
  | openArray => exact live_of_main tails
  | openDict => exact live_of_main tails
  | openData => exact live_of_main tails
  | openString => exact live_of_main tails
  | chunk => exact h
  | closeData => exact .inl (.inr rfl)
  | part => exact h
  | closeString =>
    rcases tails with _ | ⟨tail, tails⟩
    · rcases h with (h | h) | ⟨h, -⟩
      · exact absurd rfl h
      · exact absurd h (by decide)
      · exact absurd h (by decide)
    · exact .inl (.inl (by simp))
  | element _ _ hq => exact .inl (open_of_head (hn.arrays (by tauto)))
  | closeArray _ _ hq => exact .inl (open_of_head (hn.arrays hq))
  | comma => exact .inl (open_of_head (hn.arrays (by simp)))
  | semicolon => exact .inl (open_of_head (hn.dicts (by simp)))
  | closeDict _ _ hq => exact .inl (open_of_head (hn.dicts (by tauto)))
  | key => exact .inl (open_of_head (hn.dicts (by simp)))
  | equals => exact .inl (open_of_head (hn.dicts (by simp)))

/-- Where a bracket closes something, that is open. -/
lemma open_of_stop (hm : Move q tails (.stop kind) q' tails') (hkind : kind ≠ .string)
    (hn : Nested q tails) : Open q tails := by
  cases hm with
  | closeData => exact .inr rfl
  | closeString => exact absurd rfl hkind
  | closeArray _ _ hq => exact open_of_head (hn.arrays hq)
  | closeDict _ _ hq => exact open_of_head (hn.dicts (by tauto))

/-! ### Cut tokens -/

/-- Only tokens of one character, comments, texts in quotes and their parts have closing
brackets. -/
lemma closing_rules (hq : (q, rules) ∈ ruleTable) (hr : r ∈ rules) :
    (∀ c ∈ closers, r.ownPattern.avoids c = true) ∨ (∃ c ∈ closers, r.ownPattern = .set (.char c)) ∨
      (r.ownPattern = lineCommentPattern ∧ q ≠ "string" ∧ q ≠ "sstring") ∨
      (r.ownPattern = blockCommentPattern ∧ q ≠ "string" ∧ q ≠ "sstring") ∨
      (q = "string" ∧ r.ownPattern = charsPattern ∨
        q = "sstring" ∧ r.ownPattern = rep (.set singleSet) 1 none true) ∨
      q = "beforeKey" ∧ r.ownPattern = quotedPattern := by
  have hcases := forall_rule (f := fun q p _ => closers.all p.avoids = true ∨
    p ∈ closers.map (fun c => .set (.char c)) ∨
    (p = lineCommentPattern ∧ q ≠ "string" ∧ q ≠ "sstring") ∨
    (p = blockCommentPattern ∧ q ≠ "string" ∧ q ≠ "sstring") ∨
    (q = "string" ∧ p = charsPattern ∨ q = "sstring" ∧ p = rep (.set singleSet) 1 none true) ∨
    q = "beforeKey" ∧ p = quotedPattern) (by decide) hq hr
  rw [List.all_eq_true, List.mem_map] at hcases
  exact hcases.imp_right (Or.imp_left fun ⟨c, hc, hp⟩ => ⟨c, hc, hp.symm⟩)

lemma nil_of_cut_char {c : Char} {y : List Char} (hc : c.toNat < 0xd800) (hy : y ≠ [])
    (h : (Pattern.set (.char c)).Spells (u ++ y)) : u = [] := by
  have hlength := congrArg List.length (spells_char hc h)
  have hpos := List.length_pos_iff.2 hy
  rw [List.length_append, List.length_singleton] at hlength
  exact List.eq_nil_of_length_eq_zero (by omega)

lemma dead_of_open_beyond (h : Open q tails) (hn : Nested q tails)
    (hc : Chosen ⟨q, tails, u ++ v⟩ r n rules) (hlt : u.length < n) : Dead ⟨q, tails, u⟩ := by
  have hend : q ≠ "end" := Live.ne_end (.inl h) hn
  obtain ⟨y, hy, -, hspells⟩ := hc.beyond hlt
  have hslash : u = [] ∨ u = ['/'] → Dead ⟨q, tails, u⟩ := by
    rintro (rfl | rfl) <;> exact dead_of_open h (by simp [closers])
  rcases closing_rules hc.state hc.rule with
    hp | ⟨c, hcloser, hp⟩ | ⟨hp, hq⟩ | ⟨hp, hq⟩ | hp | ⟨rfl, hp⟩
  · exact dead_of_open h fun c hcloser hu =>
      not_mem_of_spells (hp c hcloser) hspells (List.mem_append_left _ hu)
  · rw [hp] at hspells
    exact hslash (.inl (nil_of_cut_char (low_of_closer hcloser) hy hspells))
  · exact dead_of_cut_lineComment hc hlt hp ⟨hq.1, hq.2, hend⟩ fun hu => hslash (.inr hu)
  · exact dead_of_cut_blockComment hc hlt hp hq hslash
  · exact dead_of_cut_chars hc hlt hp
  · exact dead_of_cut_quoted hc hlt hp

/-- A scalar that is not inside anything is a whole value. -/
lemma Live.role_ne_leaf (h : Live q' tails') (hm : Move q tails tag q' tails') (hq : q = "main")
    (htails : tails = []) : tag.role ≠ .leaf := by
  subst htails
  cases hm with
  | blank => simp [Tag.skip]
  | scalar => exact absurd rfl (h.ne_end (nested_after (by simp)))
  | chunk => exact absurd hq (by decide)
  | part _ _ _ hstring => rcases hstring with rfl | rfl <;> exact absurd hq (by decide)
  | key => exact absurd hq (by decide)
  | _ => simp [Tag.skip, Tag.start, Tag.stop]

lemma first_rules (hq : ("main", rules) ∈ ruleTable) (hr : r ∈ rules)
    (hrole : (tagOf r).role ≠ .leaf) : r.ownPattern ∈ spacePatterns ∨
      ∃ c ∈ ['(', '\x7b', '<', '"', '\''], r.ownPattern = .set (.char c) := by
  have hcases := forall_rule (f := fun q p tag => q = "main" → tag.role ≠ .leaf →
    p ∈ spacePatterns ∨ p ∈ ['(', '\x7b', '<', '"', '\''].map fun c => .set (.char c))
    (by decide) hq hr rfl hrole
  rw [List.mem_map] at hcases
  exact hcases.imp_right fun ⟨c, hc, hp⟩ => ⟨c, hc, hp.symm⟩

lemma blank_of_spells {p : Pattern} (hp : p = newlinePattern ∨ p = blanksPattern) {w : List Char}
    (h : p.Spells w) : ∀ c ∈ w, c ∈ blankChars := by
  intro c hc
  rcases spells_space hp h c hc with rfl | hc
  · decide
  · rcases contains_blankSet.1 hc with rfl | rfl | rfl <;> decide

/-- A token that is cut before anything has been read. -/
lemma dead_of_first_beyond (hc : Chosen ⟨"main", [], u ++ v⟩ r n rules) (hlt : u.length < n)
    (hlive : Live (Spot.past ⟨"main", [], u ++ v⟩ r n).state
      (Spot.past ⟨"main", [], u ++ v⟩ r n).tails) : Dead ⟨"main", [], u⟩ := by
  obtain ⟨y, hy, -, hspells⟩ := hc.beyond hlt
  have hblanks : (∀ c ∈ u ++ y, c ∈ blankChars) → Dead ⟨"main", [], u⟩ := fun h =>
    dead_of_blanks fun c hu => h c (List.mem_append_left _ hu)
  have hslash : u = [] ∨ u = ['/'] → Dead ⟨"main", [], u⟩ := by
    rintro (rfl | rfl) <;> exact dead_of_blanks (by simp [blankChars])
  rcases first_rules hc.state hc.rule (hlive.role_ne_leaf hc.move rfl rfl) with hp | ⟨c, hchar, hp⟩
  · simp only [spacePatterns, List.mem_cons, List.not_mem_nil, or_false] at hp
    rcases hp with hp | hp | hp | hp
    · exact hblanks (blank_of_spells (.inl hp) hspells)
    · exact hblanks (blank_of_spells (.inr hp) hspells)
    · exact dead_of_cut_lineComment hc hlt hp (by decide) fun hu => hslash (.inr hu)
    · exact dead_of_cut_blockComment hc hlt hp (by decide) hslash
  · have hlow : ∀ c ∈ ['(', '\x7b', '<', '"', '\''], c.toNat < 0xd800 := by simp
    exact hslash (.inl (nil_of_cut_char (hlow c hchar) hy (hp ▸ hspells)))

/-! ### Cut texts -/

variable {s s' : Scan Tag Nesting} {es : List (Scan.Entry Tag Nesting)} {z : Spot}

lemma live_of_pulls {x : Spot} (hp : Pulls s es s') (hs : Stands s x) (hn : Nested x.state x.tails)
    (hz : Stands s' z) (hlive : Live z.state z.tails) : Live x.state x.tails := by
  induction hp generalizing x with
  | nil s =>
    rw [hs.unique hz]
    exact hlive
  | cons hnext _ ih =>
    obtain ⟨r, n, hchoice, -, -, hs'⟩ := hs.next hnext
    obtain ⟨rules, hchosen⟩ := hchoice.chosen
    exact (ih hs' (hn.move hchosen.move) hz).back hchosen.move hn

/-- **Cuts**: a text that is cut on the way to a spot that is live leads to a dead end. -/
theorem dead_of_cut (hp : Pulls s es s') (hs : Stands s ⟨q, tails, u ++ v⟩) (hn : Nested q tails)
    (hz : Stands s' z) (hlive : Live z.state z.tails) (hle : z.text.length ≤ v.length) :
    Dead ⟨q, tails, u⟩ := by
  generalize hx : Spot.mk q tails (u ++ v) = x at hs
  have hhere : Live x.state x.tails :=
    live_of_pulls hp hs (by rw [← hx]; exact hn) hz hlive
  induction hp generalizing q tails u x with
  | nil s =>
    obtain rfl := hs.unique hz
    subst hx
    have hu : u = [] := by
      rw [List.length_append] at hle
      exact List.eq_nil_of_length_eq_zero (by omega)
    rw [hu]
    exact dead_at_end (hhere.ne_end hn) tails
  | cons hnext hp ih =>
    subst hx
    obtain ⟨r, n, hchoice, -, -, hs'⟩ := hs.next hnext
    obtain ⟨rules, hchosen⟩ := hchoice.chosen
    have hn' := hn.move hchosen.move
    have hthere := live_of_pulls hp hs' hn' hz hlive
    by_cases hlt : u.length < n
    · -- The token goes beyond the cut.
      rcases hhere with hopen | ⟨rfl, rfl⟩
      · exact dead_of_open_beyond hopen hn hchosen hlt
      · exact dead_of_first_beyond hchosen hlt hthere
    · have hle' : n ≤ u.length := Nat.le_of_not_lt hlt
      have hend := hhere.ne_end hn
      refine dead_of_past (fun h => hend (congrArg Spot.state h)) fun r' n' hchoice' => ?_
      obtain ⟨rfl, rfl⟩ := hchoice.of_cut hle' hchoice'
      refine ih hn' hz (u := u.drop n') _ ?_ hs' hthere
      show _ = Spot.mk _ _ ((u ++ v).drop n')
      rw [List.drop_append_of_le_length hle']

/-! ### The last bracket -/

/-- The kind of the brackets that a value stands in. -/
def Value.bracket? : Value → Option Kind
  | dict _ => some .dict
  | array _ => some .array
  | data _ => some .data
  | _ => none

lemma bracket?_of_evaluator {f : String → Except BuildError Value} {text : String} {w : Value}
    (hf : evaluator? kind = some f) (hw : f text = .ok w) : w.bracket? = none := by
  unfold evaluator? at hf
  split at hf <;> cases hf
  · cases hw
    rfl
  · unfold escapeValue at hw
    split at hw <;> cases hw
    rfl
  · unfold keyValue at hw
    split at hw <;> cases hw <;> rfl
  · unfold intValue at hw
    split at hw <;> cases hw
    rfl
  · unfold hexIntValue at hw
    split at hw <;> cases hw
    rfl
  · unfold floatValue at hw
    split at hw <;> cases hw
    rfl
  · unfold boolValue at hw
    split_ifs at hw <;> cases hw <;> rfl

lemma bracket?_of_scalar {t : Token Tag} {w : Value} (h : scalarValue t = .ok w) :
    w.bracket? = none := by
  unfold scalarValue at h
  rcases hf : evaluator? t.tag.kind with _ | f
  · rw [hf] at h
    cases h
    rfl
  · rw [hf] at h
    exact bracket?_of_evaluator hf h

/-- The last token of a phrase in brackets is the one that closes it. -/
lemma Phrase.exists_closer {p : Phrase} {w : Value} (hw : p.value = .ok w)
    (hkind : w.bracket? = some kind) : ∃ ts closer, p.tokens = ts ++ [closer] ∧
      closer.tag = .stop kind ∧ (kind = .array ∨ kind = .dict ∨ kind = .data) := by
  cases p with
  | scalar t =>
    rw [bracket?_of_scalar hw] at hkind
    cases hkind
  | string opener parts closer =>
    rw [Phrase.value] at hw
    rcases hparts : parts.mapM fun t => partText t.1 with e | texts <;> rw [hparts] at hw <;>
      cases hw
    cases hkind
  | data opener chunks closer =>
    cases hw
    cases hkind
    exact ⟨_, _, (List.cons_append ..).symm, closer.2, by simp⟩
  | array opener elements closer =>
    rw [Phrase.value] at hw
    rcases hvalues : elements.values with e | values <;> rw [hvalues] at hw <;> cases hw
    cases hkind
    exact ⟨_, _, (List.cons_append ..).symm, closer.2, by simp⟩
  | dict opener members closer =>
    rw [Phrase.value] at hw
    rcases hentries : members.entries with e | entries <;> rw [hentries] at hw <;> cases hw
    cases hkind
    exact ⟨_, _, (List.cons_append ..).symm, closer.2, by simp⟩

lemma size_of_closer {x : Spot} {t : Token Tag} {log : List Record} (hs : Stands s x)
    (hnext : s.next = (.token t, s', log)) (htag : t.tag = .stop kind)
    (hkind : kind = .array ∨ kind = .dict ∨ kind = .data) : byteSize t.text.toList = 1 := by
  obtain ⟨r, n, hchoice, ht, htext, -⟩ := hs.next hnext
  obtain ⟨rules, hchosen⟩ := hchoice.chosen
  have hcloser : tagOf r = .stop .array ∨ tagOf r = .stop .dict ∨ tagOf r = .stop .data := by
    rw [← ht, htag]
    exact hkind.imp (congrArg _) (Or.imp (congrArg _) (congrArg _))
  obtain ⟨c, hc, hp⟩ := closer_of_tag hchosen.state hchosen.rule hcloser
  have hsize : ∀ c ∈ closers, byteSize [c] = 1 := by simp [closers, Char.utf8Size]
  have hspells := hchosen.spells
  rw [hp] at hspells
  rw [htext, String.toList_ofList, spells_char (low_of_closer hc) hspells]
  exact hsize c hc

variable {options : Options} {input : String}

/-- In front of a bracket that closes something the scan is live, and the bracket is the next
byte. -/
lemma spot_of_closer (hp : Pulls (scan input options.excerptLength) es s')
    {entry : Scan.Entry Tag Nesting} (hentry : entry ∈ es) (htag : entry.token.tag = .stop kind)
    (hkind : kind = .array ∨ kind = .dict ∨ kind = .data) :
    ∃ before s q tails taken text, Pulls (scan input options.excerptLength) before s ∧
      Stands s ⟨q, tails, text⟩ ∧ Live q tails ∧ input.toList = taken ++ text ∧
      entry.token.stop = byteSize taken + 1 := by
  obtain ⟨before, after, rfl⟩ := List.append_of_mem hentry
  obtain ⟨s, mid, log, hbefore, -, hnext⟩ := hp.split
  obtain ⟨q, tails, place, hat, hnested, -⟩ :=
    reached_of_pulls (at_scan input options.excerptLength) hbefore
  have hs : Stands s ⟨q, tails, place.rest⟩ := ⟨place, hat, rfl⟩
  obtain ⟨q', tails', place', -, hstep⟩ := hat.step hnext
  have hmove := hstep.move
  rw [htag] at hmove
  have hstring : kind ≠ .string := by rcases hkind with rfl | rfl | rfl <;> decide
  obtain ⟨taken, hloc⟩ := located_of_pulls hbefore
  obtain ⟨text, hinput, hplace⟩ := hloc.behind.place
  obtain ⟨htakes, hbehind, -⟩ := hloc.behind.next hnext
  refine ⟨before, s, q, tails, taken, place.rest, hbefore, hs,
    .inl (open_of_stop hmove hstring hnested), ?_, ?_⟩
  · rw [hat.place] at hplace
    rw [← hloc.input, hinput, Option.some.inj hplace]
  · rw [← htakes.position, ← hbehind.offset, byteSize_append, size_of_closer hs hnext htag hkind]

lemma length_le_of_byteSize_le {xs ys xs' ys' : List Char} (h : xs ++ ys = xs' ++ ys')
    (hle : byteSize xs ≤ byteSize xs') : ys'.length ≤ ys.length := by
  rcases List.append_eq_append_iff.1 h with ⟨zs, -, rfl⟩ | ⟨zs, rfl, rfl⟩
  · simp
  · rw [byteSize_append] at hle
    obtain rfl : zs = [] := byteSize_eq_zero_iff.1 (by omega)
    simp

/-- **Truncation**: a dict, an array or a data block ends with the bracket that closes it, and
whatever is left of its text when it is cut before the end of that bracket is refused. -/
theorem truncated_refused {w : Value} (h : parseWith options input = .ok w)
    (hkind : w.bracket? = some kind) :
    ∃ closer : Token Tag,
      (skeleton (tokens input options.excerptLength).1).getLast? = some closer ∧
      closer.tag = .stop kind ∧
      ∀ start rest, input.toList = start ++ rest → byteSize start < closer.stop →
        ∃ e, parseWith options (String.ofList start) = .error e := by
  obtain ⟨es, s', p, hpulls, -, htokens, hp, hw, -⟩ := pulls_of_parse h
  obtain ⟨ts, closer, hlast, htag, hbracket⟩ := p.exists_closer hw hkind
  refine ⟨closer, by rw [htokens, ← hp, hlast, List.getLast?_concat], htag, ?_⟩
  intro start rest hinput hlt
  have hmem : closer ∈ skeleton es := by
    rw [← hp, hlast]
    exact List.mem_append_right _ (List.mem_singleton.2 rfl)
  obtain ⟨entry, hentry, rfl⟩ := List.mem_map.1 (List.mem_of_mem_filter hmem)
  obtain ⟨before, s, q, tails, taken, text, hbefore, hs, hlive, hsplit, hstop⟩ :=
    spot_of_closer hpulls hentry htag hbracket
  have hle : text.length ≤ rest.length :=
    length_le_of_byteSize_le (hinput.symm.trans hsplit) (by omega)
  have hscan := stands_scan input options.excerptLength
  rw [hinput] at hscan
  refine parse_of_dead ?_
  rw [String.toList_ofList]
  exact dead_of_cut hbefore hscan nested_main hs hlive hle

set_option maxRecDepth 4000 in
/-- An array with its bracket in a string and in a comment. -/
theorem truncated_array :
    ∃ closer : Token Tag,
      (skeleton (tokens "(\")\", <0F>, /*)*/)" defaultExcerptLength).1).getLast? = some closer ∧
      closer.tag = .stop .array ∧
      ∀ start rest, "(\")\", <0F>, /*)*/)".toList = start ++ rest → byteSize start < closer.stop →
        ∃ e, parseWith {} (String.ofList start) = .error e :=
  truncated_refused (w := .array [.string ")", .data ["0F"]]) (show parseWith {} _ = _ from rfl) rfl

end ScanTree.PropertyList
