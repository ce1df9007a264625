import ScanTree.Proofs.PropertyList.Fillers

/-!
Putting whitespace or a comment between two tokens of a text.

The tokens up to there stay as they are, but for the last one, which may go on into what was put
behind it: whitespace, a comment up to the end of the line, and a key without quotes, which may have
slashes. All but the key come to the same words again.
-/

namespace ScanTree.PropertyList

open Pattern Text

variable {q : String} {tails : List String} {u x y w : List Char} {r : Rule Tag Nesting}
  {rules : List (Rule Tag Nesting)} {n : Nat} {c : Char} {words : List (Tag × String)}

/-! ### One token -/

/-- A token of the pattern may go on with the character behind its end. -/
def GoesOn (p : Pattern) (c : Char) : Prop :=
  (p = newlinePattern ∨ p = blanksPattern) ∧ c ∈ spaceChars ∨ p = lineCommentPattern ∨
    p = bareKeyPattern ∧ c = '/' ∨ p = charsPattern ∨ p = rep (.set singleSet) 1 none true

/-- The patterns that have blanks or slashes behind their first character. -/
lemma blank_rules (hq : (q, rules) ∈ ruleTable) (hr : r ∈ rules) :
    (∀ c ∈ blankChars, r.ownPattern.avoids c = true) ∨
      (∃ s ∈ [blankSet, bareSet, insideSet, singleSet],
        r.ownPattern = rep (.set s) 1 none true) ∨
      r.ownPattern = newlinePattern ∨
      ((r.ownPattern = lineCommentPattern ∨ r.ownPattern = blockCommentPattern) ∧
        q ≠ "string" ∧ q ≠ "sstring") ∨
      (q, r.ownPattern) ∈
        [("beforeKey", quotedPattern), ("main", datePattern), ("string", escapePattern)] := by
  have hcases := forall_rule (f := fun q p _ => blankChars.all p.avoids = true ∨
      p ∈ [blankSet, bareSet, insideSet, singleSet].map (fun s => rep (.set s) 1 none true) ∨
      p = newlinePattern ∨
      ((p = lineCommentPattern ∨ p = blockCommentPattern) ∧ q ≠ "string" ∧ q ≠ "sstring") ∨
      (q, p) ∈ [("beforeKey", quotedPattern), ("main", datePattern), ("string", escapePattern)])
    (by decide) hq hr
  rw [List.all_eq_true, List.mem_map] at hcases
  exact hcases.imp_right (Or.imp_left fun ⟨s, hs, hp⟩ => ⟨s, hs, hp.symm⟩)

/-- The pattern takes all of the text alone, and may go on with a character behind it. -/
structure Stretches (p : Pattern) (u : List Char) (c : Char) : Prop where
  leads : p.Leads (.start ⟨none, u⟩) u.length
  goesOn : GoesOn p c

variable {z : List Char}

lemma rest_start (u : List Char) : (Run.start ⟨none, u⟩).place.rest = u ++ [] :=
  (List.append_nil u).symm

lemma stretches_set {s : CharSet} (hs : s ∈ [blankSet, bareSet, insideSet, singleSet])
    (h : (rep (.set s) 1 none true).Spells (u ++ c :: z)) (hu : u ≠ []) (hc : c ∈ blankChars) :
    Stretches (rep (.set s) 1 none true) u c := by
  obtain ⟨hset, -, -⟩ := spells_rep_set.1 h
  have hin : s.contains c = true := hset c (by simp)
  refine ⟨leads_rep_set (rest_start u) (fun e he => hset e (List.mem_append_left _ he))
    (List.length_pos_iff.2 hu) (by simp) (.inr rfl), ?_⟩
  simp only [List.mem_cons, List.not_mem_nil, or_false] at hs
  rcases hs with rfl | rfl | rfl | rfl
  · exact .inl ⟨.inr rfl, mem_spaceChars.2 (.inr hin)⟩
  · have hall : (blankChars.all fun c => !bareSet.contains c || c = '/') = true := by decide
    have hslash : c = '/' := by simpa [hin] using List.all_eq_true.1 hall c hc
    exact .inr (.inr (.inl ⟨rfl, hslash⟩))
  · exact .inr (.inr (.inr (.inl rfl)))
  · exact .inr (.inr (.inr (.inr rfl)))

lemma stretches_newline (h : newlinePattern.Spells (u ++ c :: z)) (hu : u ≠ []) :
    Stretches newlinePattern u c := by
  obtain ⟨a, b, ha, hb, hsplit⟩ := h
  obtain rfl := spells_char (by decide) ha
  obtain ⟨hset, -, hmax⟩ := spells_rep_set.1 hb
  obtain ⟨d, t, rfl⟩ := List.exists_cons_of_ne_nil hu
  obtain ⟨hd, hb⟩ : d = '\n' ∧ t ++ c :: z = b := List.cons.inj hsplit
  have hlength : b.length ≤ 1 := by
    have := hmax 1 rfl
    omega
  have hnil : t = [] := by
    rw [← hb, List.length_append, List.length_cons] at hlength
    exact List.eq_nil_of_length_eq_zero (by omega)
  have hreturn : c = '\r' := (CharSet.contains_char (by decide)).1 (hset c (by simp [← hb]))
  rw [hd, hnil, hreturn]
  have hpicks : Picks (spaceRules ++ []) 0 _ ['\n'] [] :=
    picks_newline (List.mem_of_getElem? (i := 10) rfl) (.inr ⟨rfl, by simp⟩)
  refine ⟨?_, .inl ⟨.inl rfl, by decide⟩⟩
  rw [← ownPattern_newline]
  exact hpicks.leads _ (rest_start _)

lemma spells_lineComment (h : lineCommentPattern.Spells u) :
    ∃ t, u = '/' :: '/' :: t ∧ '\n' ∉ t := by
  obtain ⟨a, _, ha, ⟨b, t, hb, ht, rfl⟩, rfl⟩ := h
  obtain rfl := spells_char (by decide) ha
  obtain rfl := spells_char (by decide) hb
  obtain ⟨hset, -, -⟩ := spells_rep_set.1 ht
  exact ⟨t, rfl, fun hmem => contains_lineSet.1 (hset _ hmem) rfl⟩

lemma spells_blockComment (h : blockCommentPattern.Spells u) : ∃ t, u = '/' :: '*' :: t := by
  obtain ⟨a, _, ha, ⟨b, t, hb, -, rfl⟩, rfl⟩ := h
  obtain rfl := spells_char (by decide) ha
  obtain rfl := spells_char (by decide) hb
  exact ⟨t, rfl⟩

lemma stretches_line {t : List Char} (ht : '\n' ∉ t) (c : Char) :
    Stretches lineCommentPattern ('/' :: '/' :: t) c := by
  refine ⟨?_, .inr (.inl rfl)⟩
  have hpicks : Picks (spaceRules ++ []) 2 _ ('/' :: '/' :: t) [] :=
    picks_lineComment (List.mem_of_getElem? (i := 10) rfl) ht (by simp)
  rw [← ownPattern_lineComment]
  exact hpicks.leads _ (rest_start _)

/-- A token that goes on with a blank or a slash after some text, by its pattern. -/
lemma stretching_rules (hq : (q, rules) ∈ ruleTable) (hr : r ∈ rules)
    (h : r.ownPattern.Spells (u ++ c :: z)) (hu : u ≠ []) (hc : c ∈ blankChars) :
    Stretches r.ownPattern u c ∨
      ((u = ['/'] ∧ c = '/' ∨ r.ownPattern = blockCommentPattern ∧ ∃ t, u = '/' :: '*' :: t) ∧
        q ≠ "string" ∧ q ≠ "sstring") ∨
      (q, r.ownPattern) ∈
        [("beforeKey", quotedPattern), ("main", datePattern), ("string", escapePattern)] := by
  rcases blank_rules hq hr with hp | ⟨s, hs, hp⟩ | hp | ⟨hp | hp, hq⟩ | hp
  · exact absurd (by simp) (not_mem_of_spells (hp c hc) h)
  · rw [hp] at h ⊢
    exact .inl (stretches_set hs h hu hc)
  · rw [hp] at h ⊢
    exact .inl (stretches_newline h hu)
  · rw [hp] at h ⊢
    rcases prefix_of_lineComment h with rfl | rfl | ⟨t, rfl, ht⟩
    · exact absurd rfl hu
    · obtain ⟨t, ht, -⟩ := spells_lineComment h
      simp only [List.cons_append, List.nil_append, List.cons.injEq, true_and] at ht
      exact .inr (.inl ⟨.inl ⟨rfl, ht.1⟩, hq⟩)
    · exact .inl (stretches_line ht c)
  · rw [hp] at h ⊢
    rcases prefix_of_blockComment h with rfl | rfl | hblock
    · exact absurd rfl hu
    · obtain ⟨t, ht⟩ := spells_blockComment h
      simp only [List.cons_append, List.nil_append, List.cons.injEq, true_and] at ht
      rw [ht.1] at hc
      exact absurd hc (by decide)
    · exact .inr (.inl ⟨.inr ⟨rfl, hblock⟩, hq⟩)
  · exact .inr (.inr hp)

/-- Where a key in quotes, a date or an escape begins, no other rule does, and none of them is ever
longer than it must be. -/
lemma closed_rules {p : Pattern} (hq : (q, rules) ∈ ruleTable) (hr : r ∈ rules)
    (hp : (q, p) ∈
      [("beforeKey", quotedPattern), ("main", datePattern), ("string", escapePattern)])
    (hopens : r.ownPattern.opens (some c) = true) (hopens' : p.opens (some c) = true) :
    r.ownPattern = p ∧ p.Shortest ∧ p.isBlind = true := by
  have hfirst : ∀ {d : Char} {p : Pattern}, d.toNat < 0xd800 →
      (seq (.set (.char d)) p).opens (some c) = true → c = d := fun hd h =>
    (CharSet.contains_char hd).1 (by simpa [opens, nullable, starts] using h)
  simp only [List.mem_cons, Prod.mk.injEq, List.not_mem_nil, or_false] at hp
  rcases hp with ⟨rfl, rfl⟩ | ⟨rfl, rfl⟩ | ⟨rfl, rfl⟩ <;>
    obtain rfl := hfirst (by decide) hopens'
  · exact ⟨forall_rule (f := fun q p _ => q = "beforeKey" → p.opens (some '"') = true →
      p = quotedPattern) (by decide) hq hr rfl hopens, shortest_quoted, rfl⟩
  · exact ⟨forall_rule (f := fun q p _ => q = "main" → p.opens (some '@') = true →
      p = datePattern) (by decide) hq hr rfl hopens, shortest_of_isRigid rfl, rfl⟩
  · exact ⟨forall_rule (f := fun q p _ => q = "string" → p.opens (some '\\') = true →
      p = escapePattern) (by decide) hq hr rfl hopens, shortest_of_isRigid rfl, rfl⟩

lemma bareKey_of_slash (hc : Chosen ⟨q, tails, '/' :: u⟩ r n rules) (hone : n = 1)
    (hq : q ≠ "string" ∧ q ≠ "sstring") :
    r.ownPattern = bareKeyPattern ∧ tagOf r = .leaf .key := by
  have hspells : r.ownPattern.Spells ['/'] := by
    have := hc.spells
    rwa [hone] at this
  rcases slash_rules hc.state hc.rule hq hc.opens with hp | hp | hp | hp
  · rw [hp] at hspells
    obtain ⟨t, ht, -⟩ := spells_lineComment hspells
    simp at ht
  · rw [hp] at hspells
    obtain ⟨t, ht⟩ := spells_blockComment hspells
    simp at ht
  · exact hp
  · rw [hp] at hspells
    cases hspells

/-- A star comes after no key. -/
lemma not_ends_of_star (tails : List String) (t : List Char) :
    ¬ Ends ⟨"afterKey", tails, '*' :: t⟩ words := by
  generalize hx : Spot.mk "afterKey" tails ('*' :: t) = x
  rintro (_ | ⟨hchoice, -⟩)
  · have hstate : "afterKey" = "end" := congrArg Spot.state hx
    exact absurd hstate (by decide)
  · subst hx
    obtain ⟨rules, hchosen⟩ := hchoice.chosen
    have hnone := forall_rule (f := fun q p _ => q = "afterKey" → p.opens (some '*') = false)
      (by decide) hchosen.state hchosen.rule rfl
    have hopens := hchosen.opens
    rw [List.head?_cons, hnone] at hopens
    cases hopens

/-- Of a comment in stars that has no end yet, no token can be taken. -/
lemma not_ends_of_cut_comment {t : List Char} (hc : Chosen ⟨q, tails, '/' :: '*' :: t⟩ r n rules)
    (hpos : 0 < n) (hq : q ≠ "string" ∧ q ≠ "sstring")
    (hnone : ∀ place : Place, place.rest = '/' :: '*' :: t →
      blockCommentPattern.match? place = none) (y : List Char) :
    ¬ Ends (Spot.past ⟨q, tails, '/' :: '*' :: t ++ y⟩ r n) words := by
  obtain ⟨hone, htag⟩ := (hc.of_cut_comment hq hnone).resolve_left (Nat.ne_of_gt hpos)
  have hstate : (landing r q tails).1 = "afterKey" := hc.move.of_key htag
  have hspot : Spot.past ⟨q, tails, '/' :: '*' :: t ++ y⟩ r n =
      ⟨"afterKey", (landing r q tails).2, '*' :: (t ++ y)⟩ := by
    rw [← hstate, hone]
    rfl
  rw [hspot]
  exact not_ends_of_star _ _

/-- **Step**: with something else behind it that begins with a blank or a slash, a token stays as it
is, or was the last one and goes on. -/
theorem Chooses.insert (h : Chooses ⟨q, tails, u ++ y⟩ r n) (hpos : 0 < n) (hle : n ≤ u.length)
    (hends : Ends (Spot.past ⟨q, tails, u ++ y⟩ r n) words) (hc : c ∈ blankChars) (x : List Char) :
    Chooses ⟨q, tails, u ++ c :: x⟩ r n ∨ n = u.length ∧ GoesOn r.ownPattern c := by
  have hcut : Chooses ⟨q, tails, u⟩ r n := h.cut hle
  have hnext : (c :: x).head?.any (Look.isWord false) = false := by
    have hall : (blankChars.all fun c => !Look.isWord false c) = true := by decide
    simpa using List.all_eq_true.1 hall c hc
  obtain ⟨r', m, hgrown⟩ := hcut.grow hnext
  by_cases hm : m ≤ u.length
  · obtain ⟨rfl, rfl⟩ := hgrown.of_cut hm hcut
    exact .inl hgrown
  have hlt : u.length < m := Nat.lt_of_not_le hm
  obtain ⟨rules, hc'⟩ := hgrown.chosen
  obtain ⟨rules', hchosen⟩ := hcut.chosen
  obtain rfl := rules_unique hc'.state hchosen.state
  obtain ⟨z, hz, hprefix, hspells⟩ := hc'.beyond hlt
  obtain ⟨z, rfl⟩ : ∃ z', z = c :: z' := by
    rcases z with _ | ⟨d, z⟩
    · exact absurd rfl hz
    · exact ⟨z, by rw [(List.cons_prefix_cons.1 hprefix).1]⟩
  have hu : u ≠ [] := List.ne_nil_of_length_pos (hpos.trans_le hle)
  rcases stretching_rules hc'.state hc'.rule hspells hu hc with hstretches | ⟨hcases, hq⟩ | hp
  · -- The rule takes all of the text alone, so it is the one that was chosen.
    obtain ⟨rfl, hlength⟩ := (hgrown.shrink hnext hstretches.leads).unique hcut
    exact .inr ⟨hlength.symm, hstretches.goesOn⟩
  · rcases hcases with ⟨rfl, rfl⟩ | ⟨hp, t, rfl⟩
    · have hone : n = 1 := Nat.le_antisymm hle hpos
      obtain ⟨hp, -⟩ := bareKey_of_slash hchosen hone hq
      exact .inr ⟨hone, .inr (.inr (.inl ⟨hp, rfl⟩))⟩
    · refine absurd hends (not_ends_of_cut_comment hchosen hpos hq (fun place hplace => ?_) y)
      rw [← hp]
      exact hc'.match?_eq_none hlt (by rw [hp]; exact shortest_blockComment) (by rw [hp]; rfl)
        hplace
  · obtain ⟨d, t, rfl⟩ := List.exists_cons_of_ne_nil hu
    obtain ⟨hsame, hshort, hblind⟩ := closed_rules hchosen.state hchosen.rule hp hchosen.opens
      hc'.opens
    obtain ⟨place, stop, hplace, hfound, -⟩ := hchosen.found
    rw [hsame, hc'.match?_eq_none hlt hshort hblind hplace] at hfound
    cases hfound

/-! ### The last token -/

structure Fits (w : List Char) (p : Pattern) : Prop where
  /-- Behind a comment up to the end of the line, a comment in stars stays on the line. -/
  line : p = lineCommentPattern → IsBlockComment w → '\n' ∉ w
  /-- Behind a key without quotes there is no comment. -/
  key : p = bareKeyPattern → w.head? ≠ some '/'

lemma IsFiller.head (hw : IsFiller (c :: x)) : c ∈ blankChars := by
  rcases hw with hw | ⟨t, ht, -⟩ | ⟨t, ht, -⟩
  · have hsub : spaceChars ⊆ blankChars := by simp [spaceChars, blankChars]
    exact hsub (hw c List.mem_cons_self)
  · rw [(List.cons.inj ht).1]
    decide
  · rw [(List.cons.inj ht).1]
    decide

lemma IsFiller.space (hw : IsFiller (c :: x)) (hc : c ∈ spaceChars) : IsSpace (c :: x) := by
  rcases hw with hw | ⟨t, ht, -⟩ | ⟨t, ht, -⟩
  · exact hw
  · rw [(List.cons.inj ht).1] at hc
    exact absurd hc (by decide)
  · rw [(List.cons.inj ht).1] at hc
    exact absurd hc (by decide)

lemma isSpace_of_spells {p : Pattern} (hp : p = newlinePattern ∨ p = blanksPattern)
    (h : p.Spells u) : IsSpace u :=
  fun c hc => mem_spaceChars.2 (spells_space hp h c hc)

lemma head_behind_line {t : List Char} (hq : q ≠ "string" ∧ q ≠ "sstring") (ht : '\n' ∉ t)
    (h : Chooses ⟨q, tails, '/' :: '/' :: t ++ y⟩ r ('/' :: '/' :: t).length) :
    ∀ d ∈ y.head?, d = '\n' := by
  obtain ⟨rules, hchosen⟩ := h.chosen
  obtain ⟨more, rfl⟩ := exists_spaceRules hchosen.state hq.1 hq.2
  let p : Char → Bool := fun d => d ≠ '\n'
  have hline : '\n' ∉ t ++ y.takeWhile p := fun hmem => by
    rcases List.mem_append.1 hmem with hmem | hmem
    · exact ht hmem
    · simpa [p] using List.mem_takeWhile_imp hmem
  have hstop : ∀ d ∈ (y.dropWhile p).head?, d = '\n' := fun d hd => by
    have hnot := List.head?_dropWhile_not p y
    rw [Option.mem_def.1 hd] at hnot
    simpa [p] using hnot
  have hlong : Chooses ⟨q, tails, '/' :: '/' :: (t ++ y.takeWhile p) ++ y.dropWhile p⟩ _ _ :=
    (picks_lineComment hchosen.state hline hstop).chooses hchosen.state
  have htext : '/' :: '/' :: (t ++ y.takeWhile p) ++ y.dropWhile p = '/' :: '/' :: t ++ y := by
    simp [List.takeWhile_append_dropWhile]
  rw [htext] at hlong
  have hlength := (h.unique hlong).2
  have hnil : y.takeWhile p = [] := List.eq_nil_of_length_eq_zero (by simpa using hlength)
  rw [← List.takeWhile_append_dropWhile (p := p) (l := y), hnil]
  exact hstop

/-- Rules for blanks are used outside of strings only, and those for characters leave the state as
it is. -/
lemma goesOn_rules (hq : (q, rules) ∈ ruleTable) (hr : r ∈ rules) :
    (r.ownPattern = newlinePattern ∨ r.ownPattern = blanksPattern ∨
        r.ownPattern = lineCommentPattern → q ≠ "string" ∧ q ≠ "sstring") ∧
      (r.ownPattern = charsPattern ∨ r.ownPattern = rep (.set singleSet) 1 none true →
        (q = "string" ∨ q = "sstring") ∧ tagOf r = .leaf .chars) :=
  forall_rule (f := fun q p tag =>
    (p = newlinePattern ∨ p = blanksPattern ∨ p = lineCommentPattern →
      q ≠ "string" ∧ q ≠ "sstring") ∧
    (p = charsPattern ∨ p = rep (.set singleSet) 1 none true →
      (q = "string" ∨ q = "sstring") ∧ tag = .leaf .chars)) (by decide) hq hr

/-- Behind a token that goes on into the filler, the same words are left as without it. -/
lemma same_of_goesOn (h : Chooses ⟨q, tails, u ++ y⟩ r u.length) (hgoes : GoesOn r.ownPattern c)
    (hout : (landing r q tails).1 ≠ "string" ∧ (landing r q tails).1 ≠ "sstring")
    (hfits : Fits (c :: x) r.ownPattern) (hw : IsFiller (c :: x)) :
    Same ⟨q, tails, u ++ (c :: x ++ y)⟩ ⟨q, tails, u ++ y⟩ := by
  obtain ⟨rules, hchosen⟩ := h.chosen
  have hspells := hchosen.spells
  rw [List.take_left] at hspells
  obtain ⟨hblank, hchars⟩ := goesOn_rules hchosen.state hchosen.rule
  rcases hgoes with ⟨hp, hc⟩ | hp | ⟨hp, rfl⟩ | hp
  · have hq := hblank (hp.imp_right .inl)
    obtain ⟨more, rfl⟩ := exists_spaceRules hchosen.state hq.1 hq.2
    have hu := isSpace_of_spells hp hspells
    have hboth : IsSpace (u ++ c :: x) := List.forall_mem_append.2 ⟨hu, hw.space hc⟩
    have hlong := same_of_space hchosen.state tails hboth y
    rw [List.append_assoc] at hlong
    exact hlong.trans (same_of_space hchosen.state tails hu y).symm
  · have hq := hblank (.inr (.inr hp))
    rw [hp] at hspells
    obtain ⟨t, rfl, ht⟩ := spells_lineComment hspells
    have hnext := head_behind_line hq ht h
    obtain ⟨more, rfl⟩ := exists_spaceRules hchosen.state hq.1 hq.2
    exact (same_behind_line hchosen.state tails ht hw (hfits.line hp) hnext).trans
      (same_of_line hchosen.state tails ht hnext).symm
  · exact absurd rfl (hfits.key hp)
  · obtain ⟨hq, htag⟩ := hchars hp
    have hstate : (landing r q tails).1 = q := hchosen.move.of_chars htag
    rw [hstate] at hout
    exact absurd hq (not_or.2 hout)

lemma Ends.state {z : Spot} (h : Ends z words) : ∃ rules, (z.state, rules) ∈ ruleTable := by
  cases h with
  | nil => exact ⟨_, List.mem_of_getElem? (i := 10) rfl⟩
  | cons h _ =>
    obtain ⟨rules, hchosen⟩ := h.chosen
    exact ⟨rules, hchosen.state⟩

/-- **Last token**: behind it a filler makes no difference. -/
lemma ends_behind (h : Chooses ⟨q, tails, u ++ y⟩ r u.length) (hu : u ≠ [])
    (hout : (landing r q tails).1 ≠ "string" ∧ (landing r q tails).1 ≠ "sstring")
    (hfits : Fits (c :: x) r.ownPattern) (hw : IsFiller (c :: x))
    (hends : Ends ⟨q, tails, u ++ y⟩ words) : Ends ⟨q, tails, u ++ (c :: x ++ y)⟩ words := by
  obtain ⟨rest, hrest, rfl⟩ := hends.of_chooses h
  rcases h.insert (List.length_pos_iff.2 hu) (Nat.le_refl _) hrest hw.head (x ++ y) with
    hsame | ⟨-, hgoes⟩
  · have hpast : ∀ z, Spot.past ⟨q, tails, u ++ z⟩ r u.length =
        ⟨(landing r q tails).1, (landing r q tails).2, z⟩ := fun z => by
      rw [Spot.past, List.drop_left]
    rw [hpast] at hrest
    obtain ⟨rules, hstate⟩ := hrest.state
    have hfilled := (same_of_filler hstate hout _ hw y rest).2 hrest
    have hall := Ends.cons hsame ((hpast _).symm ▸ hfilled)
    rw [List.take_left] at hall ⊢
    exact hall
  · exact (same_of_goesOn h hgoes hout hfits hw _).2 hends

/-! ### Runs -/

/-- A scan comes through the text `u` to where `y` is left, outside of strings, and the filler may
come behind what it takes last. -/
inductive Gap (w y : List Char) : String → List String → List Char → Prop
  | here (q : String) (tails : List String) (hq : q ≠ "string" ∧ q ≠ "sstring") : Gap w y q tails []
  | last {q : String} {tails : List String} {u : List Char} {r : Rule Tag Nesting}
      (h : Chooses ⟨q, tails, u ++ y⟩ r u.length) (hu : u ≠ [])
      (hout : (landing r q tails).1 ≠ "string" ∧ (landing r q tails).1 ≠ "sstring")
      (hfits : Fits w r.ownPattern) : Gap w y q tails u
  | step {q : String} {tails : List String} {u : List Char} {r : Rule Tag Nesting} {n : Nat}
      (h : Chooses ⟨q, tails, u ++ y⟩ r n) (hn : n < u.length)
      (hs : Gap w y (landing r q tails).1 (landing r q tails).2 (u.drop n)) : Gap w y q tails u

lemma Chosen.of_idle (h : Chosen ⟨q, tails, u⟩ r 0 rules) :
    (q = "arrayHead" ∨ q = "afterComma") ∧ r = otherwise (.skip .space) (.const "main") := by
  have hall : ∀ e ∈ ruleTable, ∀ r ∈ e.2, r.pattern = none →
      (e.1 = "arrayHead" ∨ e.1 = "afterComma") ∧
        r = otherwise (.skip .space) (.const "main") := by
    simp [ruleTable, mainRules, elementRules, spaceRules, closeArray, closeDict,
      PropertyList.rule, lineRule, otherwise]
  have hnull := nullable_of_spells h.spells
  rw [nullable_of_mem _ h.state r h.rule] at hnull
  exact hall _ h.state r h.rule (by simpa using hnull)

/-- Where an element may begin, the same words are left as where a value must. -/
lemma Ends.element (h : Ends ⟨"main", tails, u⟩ words) (hq : q = "arrayHead" ∨ q = "afterComma") :
    Ends ⟨q, tails, u⟩ words := by
  generalize hx : Spot.mk "main" tails u = x at h
  induction h generalizing u with
  | nil =>
    have hstate : "main" = "end" := congrArg Spot.state hx
    exact absurd hstate (by decide)
  | @cons x r n words hchoice hs ih =>
    subst hx
    rcases hchoice.element hq tails with ⟨hr, helement⟩ | hother
    · refine .cons helement ?_
      rw [past_spaceRules hr]
      exact ih (past_spaceRules hr ⟨"main", tails, u⟩ n).symm
    · have hmain : Ends (Spot.past ⟨q, tails, u⟩ (otherwise (.skip .space) (.const "main")) 0) _ :=
        .cons hchoice hs
      have hall := Ends.cons hother hmain
      exact hall

/-- **Run**: with a filler in the gap of a text the same words are left. -/
theorem Gap.ends (h : Gap (c :: x) y q tails u) (hw : IsFiller (c :: x))
    (hends : Ends ⟨q, tails, u ++ y⟩ words) : Ends ⟨q, tails, u ++ (c :: x ++ y)⟩ words := by
  induction h generalizing words with
  | here q tails hq =>
    obtain ⟨rules, hstate⟩ := hends.state
    exact (same_of_filler hstate hq tails hw y words).2 hends
  | last h hu hout hfits => exact ends_behind h hu hout hfits hw hends
  | @step q tails u r n h hn _ ih =>
    obtain ⟨rest, hrest, rfl⟩ := hends.of_chooses h
    have hpast : ∀ z, Spot.past ⟨q, tails, u ++ z⟩ r n =
        ⟨(landing r q tails).1, (landing r q tails).2, u.drop n ++ z⟩ := fun z => by
      rw [Spot.past, List.drop_append_of_le_length (Nat.le_of_lt hn)]
    have hfilled := ih (hpast y ▸ hrest)
    rcases Nat.eq_zero_or_pos n with rfl | hpos
    · obtain ⟨rules, hchosen⟩ := h.chosen
      obtain ⟨hq, rfl⟩ := hchosen.of_idle
      exact hfilled.element hq
    · rcases h.insert hpos (Nat.le_of_lt hn) hrest hw.head (x ++ y) with hsame | ⟨rfl, -⟩
      · have hall := Ends.cons hsame ((hpast _).symm ▸ hfilled)
        rw [List.take_append_of_le_length (Nat.le_of_lt hn)] at hall ⊢
        exact hall
      · exact absurd hn (Nat.lt_irrefl _)

end ScanTree.PropertyList
