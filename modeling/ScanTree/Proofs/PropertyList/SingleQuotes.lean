import ScanTree.Proofs.PropertyList.Insertion

/-!
Strings in single quotes, in which every character stands for itself and each quote is doubled.

Whether a quote is doubled or closes the string shows in what comes behind it only. What is written
is read back from its front, run by run and quote by quote. The other way around, the tokens of a
text that was read take its quotes in pairs, up to the one that closes.
-/

namespace ScanTree.PropertyList

open Pattern

variable {q : String} {tails : List String} {rules more : List (Rule Tag Nesting)}
  {r : Rule Tag Nesting} {s t u w rest : List Char} {n : Nat} {words : List (Tag × String)}

/-! ### Quotes -/

def doubled (s : List Char) : List Char := s.flatMap fun c => if c = '\'' then ['\'', '\''] else [c]

/-- A text in single quotes. -/
def singleQuoted (s : List Char) : List Char := '\'' :: (doubled s ++ ['\''])

lemma doubled_append (s t : List Char) : doubled (s ++ t) = doubled s ++ doubled t :=
  List.flatMap_append

lemma doubled_quote (s : List Char) : doubled ('\'' :: s) = '\'' :: '\'' :: doubled s := rfl

lemma doubled_of_plain (h : ∀ c ∈ s, c ≠ '\'') : doubled s = s := by
  rw [doubled, List.flatMap_congr fun c hc => if_neg (h c hc), List.flatMap_singleton']

lemma head?_doubled (hs : ∀ c ∈ s.head?, c = '\'') (rest : List Char) :
    (doubled s ++ '\'' :: rest).head? = some '\'' := by
  rcases s with _ | ⟨c, s⟩
  · rfl
  · obtain rfl := hs c rfl
    rfl

/-! ### Reading -/

lemma reads_openSingle (tails : List String) (rest : List Char) :
    Reads ⟨"main", tails, '\'' :: rest⟩ (Single (.start .string) ['\'']) ⟨"sstring", tails, rest⟩ :=
  reads_char (k := 0) (i := 8) rfl rfl rfl (by decide) tails rest

lemma reads_quotes (tails : List String) (rest : List Char) :
    Reads ⟨"sstring", tails, '\'' :: '\'' :: rest⟩ (Single (.leaf .escape) ['\'', '\''])
      ⟨"sstring", tails, rest⟩ := by
  have hmem : ("sstring", _) ∈ ruleTable := List.mem_of_getElem? (i := 3) rfl
  have hbefore : refuses [lineRule "[^']+" (.leaf .chars) .stay] (some '\'') = true := by
    decide +kernel
  have hspells : quotesPattern.Spells (['\''] ++ ['\'']) :=
    spells_seq ⟨'\'', by decide, rfl⟩ ⟨'\'', by decide, rfl⟩
  have hpicks : Picks _ 1 _ ['\'', '\''] rest :=
    picks_of_refuses hmem rfl hbefore fun run hrun => by
      rw [ownPattern_eq (k := 3) (i := 1) rfl rfl rfl rfl]
      exact leads_of_isRigid (by decide) hspells hrun
  exact hpicks.reads_plain hmem (by decide)

lemma reads_closeSingle (hrest : rest.head? ≠ some '\'') (tails : List String) :
    Reads ⟨"sstring", tails, '\'' :: rest⟩ (Single (.stop .string) ['\''])
      ⟨after tails, tails, rest⟩ := by
  have hmem : ("sstring", _) ∈ ruleTable := List.mem_of_getElem? (i := 3) rfl
  have hpicks : Picks [lineRule "[^']+" (.leaf .chars) .stay, rule "''" (.leaf .escape) .stay,
      rule "'" (.stop .string) resume] 2 (rule "'" (.stop .string) resume) ['\''] rest := by
    refine ⟨rfl, fun place hplace => List.forall_mem_cons.2 ⟨?_, List.forall_mem_singleton.2 ?_⟩,
      fun run hrun => ?_⟩
    · rw [ownPattern_eq (k := 3) (i := 0) rfl rfl rfl rfl]
      refine match?_eq_none_of_opens rfl ?_
      rw [hplace]
      show (rep (.set singleSet) 1 none true).opens (some '\'') = false
      decide
    · rw [ownPattern_eq (k := 3) (i := 1) rfl rfl rfl rfl]
      refine match?_eq_none rfl fun u v huv hu => hrest ?_
      obtain ⟨a, b, ha, hb, rfl⟩ := hu
      obtain rfl := spells_char (by decide) ha
      obtain rfl := spells_char (by decide) hb
      have hnext : rest = '\'' :: v := (List.cons.inj (hplace.symm.trans huv)).2
      rw [hnext]
      rfl
    · rw [ownPattern_eq (k := 3) (i := 2) rfl rfl rfl rfl]
      exact leads_set hrun ((CharSet.contains_char (by decide)).2 rfl)
  exact hpicks.reads_plain hmem (by decide)

lemma reads_doubled (s : List Char) (tails : List String) (rest : List Char) :
    Reads ⟨"sstring", tails, doubled s ++ '\'' :: rest⟩ (Parts s)
      ⟨"sstring", tails, '\'' :: rest⟩ := by
  induction s using induction_on_runs (· ≠ '\'') with
  | nil => exact (Reads.refl _).mono fun ts hts => by rw [hts]; exact parts_nil
  | single c s hc ih =>
    obtain rfl : c = '\'' := not_not.1 hc
    rw [doubled_quote]
    refine ((reads_quotes tails _).append ih).mono ?_
    rintro ts ⟨us, vs, ⟨t, ht, htext, rfl⟩, hvs, rfl⟩
    exact parts_cons (.inr ht) (partText_escape ht htext rfl) hvs
  | run w more hne hw hmore ih =>
    have hstop : ∀ d ∈ (doubled more ++ '\'' :: rest).head?, singleSet.contains d = false := by
      rw [head?_doubled (fun d hd => not_not.1 (hmore d hd))]
      rintro d ⟨⟩
      decide
    rw [doubled_append, doubled_of_plain hw, List.append_assoc]
    refine ((reads_run (k := 3) rfl rfl hne (fun d hd => contains_singleSet.2 (hw d hd))
      hstop).append ih).mono ?_
    rintro ts ⟨us, vs, ⟨t, ht, htext, rfl⟩, hvs, rfl⟩
    exact parts_cons (.inl ht) (partText_chars ht htext) hvs

lemma reads_singleQuoted (s : String) (tails : List String) (hrest : rest.head? ≠ some '\'') :
    Reads ⟨"main", tails, singleQuoted s.toList ++ rest⟩ (Means (.string s))
      ⟨after tails, tails, rest⟩ := by
  have htext : singleQuoted s.toList ++ rest = '\'' :: (doubled s.toList ++ '\'' :: rest) := by
    simp [singleQuoted]
  rw [htext]
  refine ((reads_openSingle tails _).append ((reads_doubled s.toList tails rest).append
    (reads_closeSingle hrest tails))).mono fun ts hts => ?_
  have := means_string hts
  rwa [String.ofList_toList] at this

/-! ### Spacing -/

/-- Whitespace and comments in front of the rest of a text. A comment up to the end of its line goes
no further. -/
inductive Spacing (rest : List Char) : List Char → Prop
  | nil : Spacing rest []
  | space {u w : List Char} (hu : IsSpace u) (hw : Spacing rest w) : Spacing rest (u ++ w)
  | block {u w : List Char} (hu : IsBlockComment u) (hw : Spacing rest w) : Spacing rest (u ++ w)
  | line {t w : List Char} (ht : '\n' ∉ t) (hend : ∀ c ∈ (w ++ rest).head?, c = '\n')
      (hw : Spacing rest w) : Spacing rest ('/' :: '/' :: t ++ w)

/-- Behind spacing the same words are left as in front of it. -/
lemma Spacing.same (h : Spacing rest w) (hq : (q, spaceRules ++ more) ∈ ruleTable)
    (tails : List String) : Same ⟨q, tails, w ++ rest⟩ ⟨q, tails, rest⟩ := by
  induction h with
  | nil => exact .refl _
  | space hu _ ih =>
    rw [List.append_assoc]
    exact (same_of_space hq tails hu _).trans ih
  | block hu _ ih =>
    rw [List.append_assoc]
    exact (same_of_blockComment hq tails hu _).trans ih
  | line ht hend _ ih =>
    rw [List.append_assoc]
    exact (same_of_line hq tails ht hend).trans ih

lemma Spacing.head?_ne (h : Spacing [] w) : w.head? ≠ some '\'' := by
  induction h with
  | nil => simp
  | @space u w hu _ ih =>
    rcases u with _ | ⟨c, u⟩
    · exact ih
    · rintro ⟨⟩
      exact absurd (hu '\'' List.mem_cons_self) (by decide)
  | block hu =>
    obtain ⟨c, rfl, -⟩ := hu
    simp
  | line => simp

/-- From whatever begins and ends like a comment, a comment can be taken. -/
lemma exists_blockComment (c : List Char) :
    ∃ d y, c ++ ['*', '/'] = d ++ ['*', '/'] ++ y ∧
      IsBlockComment ('/' :: '*' :: (d ++ ['*', '/'])) := by
  induction hlen : c.length using Nat.strongRecOn generalizing c with
  | _ n ih =>
    by_cases hfirst : ∀ xs ys, c ++ ['*', '/'] = xs ++ '*' :: '/' :: ys → ys = []
    · exact ⟨c, [], by simp, c, rfl, hfirst⟩
    · push Not at hfirst
      obtain ⟨xs, ys, hsplit, hne⟩ := hfirst
      have hshort : xs.length < n := by
        have hlength := congrArg List.length hsplit
        have := List.length_pos_of_ne_nil hne
        simp only [List.length_append, List.length_cons, List.length_nil] at hlength
        omega
      obtain ⟨d, y, hd, hcomment⟩ := ih _ hshort xs rfl
      refine ⟨d, y ++ ys, ?_, hcomment⟩
      rw [hsplit, ← List.append_assoc, ← hd]
      simp

/-- A rule for comments in stars takes no more than the comment. -/
lemma isBlockComment_of_chooses (hq : (q, spaceRules ++ more) ∈ ruleTable)
    (h : Chooses ⟨q, tails, u ++ rest⟩ r u.length) (hu : blockCommentPattern.Spells u) :
    IsBlockComment u := by
  obtain ⟨a, _, ha, ⟨b, _, hb, ⟨c, _, -, ⟨a', b', ha', hb', rfl⟩, rfl⟩, rfl⟩, rfl⟩ := hu
  obtain rfl := spells_char (by decide) ha
  obtain rfl := spells_char (by decide) hb
  obtain rfl := spells_char (by decide) ha'
  obtain rfl := spells_char (by decide) hb'
  obtain ⟨d, y, hd, hcomment⟩ := exists_blockComment c
  have htext : ['/'] ++ (['*'] ++ (c ++ (['*'] ++ ['/']))) =
      '/' :: '*' :: (d ++ ['*', '/']) ++ y := by
    simpa using hd
  rw [htext] at h ⊢
  rw [List.append_assoc] at h
  have hlength := (h.unique ((picks_blockComment hq hcomment (y ++ rest)).chooses hq)).2
  have hnil : y = [] := List.eq_nil_of_length_eq_zero (by simpa using hlength)
  rwa [hnil, List.append_nil]

/-- **Step**: what a rule for blanks takes is spacing. -/
lemma Spacing.of_chooses (hw : Spacing rest w) (hrest : u.drop n = w ++ rest)
    (hq : q ≠ "string" ∧ q ≠ "sstring") (hr : r ∈ spaceRules) (h : Chooses ⟨q, tails, u⟩ r n) :
    Spacing rest (u.take n ++ w) := by
  obtain ⟨rules, hchosen⟩ := h.chosen
  obtain ⟨more, rfl⟩ := exists_spaceRules hchosen.state hq.1 hq.2
  obtain ⟨a, rfl, rfl⟩ : ∃ a, u = a ++ (w ++ rest) ∧ n = a.length :=
    ⟨u.take n, by rw [← hrest, List.take_append_drop], (List.length_take_of_le hchosen.le).symm⟩
  have hspells := hchosen.spells
  rw [List.take_left] at hspells ⊢
  have hown : r.ownPattern ∈ spacePatterns := by
    rw [← patterns_spaceRules]
    exact List.mem_map_of_mem hr
  simp only [spacePatterns, List.mem_cons, List.not_mem_nil, or_false] at hown
  rcases hown with hp | hp | hp | hp <;> rw [hp] at hspells
  · exact .space (isSpace_of_spells (.inl rfl) hspells) hw
  · exact .space (isSpace_of_spells (.inr rfl) hspells) hw
  · obtain ⟨t, rfl, ht⟩ := spells_lineComment hspells
    exact .line ht (head_behind_line hq ht h) hw
  · exact .block (isBlockComment_of_chooses hchosen.state h hspells) hw

/-- **Run**: behind a value there is nothing but spacing. -/
lemma spacing_of_ends (h : Ends ⟨"end", tails, u⟩ words) : Spacing [] u := by
  generalize hx : Spot.mk "end" tails u = x at h
  induction h generalizing u with
  | nil =>
    obtain rfl : u = [] := congrArg Spot.text hx
    exact .nil
  | @cons x r n words hchoice _ ih =>
    subst hx
    obtain ⟨rules, hchosen⟩ := hchoice.chosen
    obtain rfl : rules = spaceRules :=
      rules_unique hchosen.state (List.mem_of_getElem? (i := 10) rfl)
    have hrest : Spacing [] (u.drop n) :=
      ih (past_spaceRules hchosen.rule ⟨"end", tails, u⟩ n).symm
    have hall := hrest.of_chooses (List.append_nil _).symm (by decide) hchosen.rule hchoice
    rwa [List.take_append_drop] at hall

/-! ### Writing and reading -/

lemma reads_of_ends {x : Spot} (h : Ends x []) : Reads x Nothing ⟨"end", [], []⟩ := by
  intro s hs
  obtain ⟨es, s', hpulls, hwords, hend⟩ := h.pulls hs
  have hskel : skeleton es = [] := List.map_eq_nil_iff.1 hwords
  exact ⟨es, s', hpulls, hskel, by rw [hskel]; exact allFit_nil, hend⟩

/-- **Written and read**: a text in single quotes is read back, whatever characters are in it and
whatever spacing is around it. -/
theorem parse_singleQuoted (s : String) {pre post : List Char}
    (hpre : Spacing (singleQuoted s.toList ++ post) pre) (hpost : Spacing [] post) :
    parse (String.ofList (pre ++ (singleQuoted s.toList ++ post))) = .ok (.string s) := by
  have hmem : ("end", spaceRules ++ []) ∈ ruleTable := List.mem_of_getElem? (i := 10) rfl
  have hend : Reads ⟨"end", [], post⟩ Nothing ⟨"end", [], []⟩ := by
    refine reads_of_ends ?_
    have hsame := hpost.same hmem []
    rw [List.append_nil] at hsame
    exact (hsame []).2 .nil
  have hquoted : parse (String.ofList (singleQuoted s.toList ++ post)) = .ok (.string s) := by
    refine parse_of_reads ?_
    rw [String.toList_ofList]
    exact (reads_singleQuoted s [] hpost.head?_ne).before_blank hend
  refine parse_of_ends hquoted fun words hwords => ?_
  rw [String.toList_ofList] at hwords ⊢
  exact (hpre.same mem_main [] words).2 hwords

/-! ### Texts that were read -/

/-- What a rule in single quotes takes, and where it goes on. -/
lemma single_rules (h : Chosen ⟨"sstring", tails, u⟩ r n rules) :
    landing r "sstring" tails = ("sstring", tails) ∧
        ((∀ c ∈ u.take n, c ≠ '\'') ∨ u.take n = ['\'', '\'']) ∨
      landing r "sstring" tails = (after tails, tails) ∧ u.take n = ['\''] := by
  have hr := h.rule
  have hspells := h.spells
  obtain rfl := rules_unique h.state (List.mem_of_getElem? (i := 3) rfl)
  simp only [List.mem_cons, List.not_mem_nil, or_false] at hr
  rcases hr with rfl | rfl | rfl
  · rw [ownPattern_eq (k := 3) (i := 0) rfl rfl rfl rfl] at hspells
    obtain ⟨hset, -, -⟩ := spells_rep_set.1 hspells
    exact .inl ⟨rfl, .inl fun c hc => contains_singleSet.1 (hset c hc)⟩
  · rw [ownPattern_eq (k := 3) (i := 1) rfl rfl rfl rfl] at hspells
    obtain ⟨a, b, ha, hb, hw⟩ := hspells
    obtain rfl := spells_char (by decide) ha
    obtain rfl := spells_char (by decide) hb
    exact .inl ⟨rfl, .inr hw⟩
  · rw [ownPattern_eq (k := 3) (i := 2) rfl rfl rfl rfl] at hspells
    exact .inr ⟨rfl, spells_char (by decide) hspells⟩

/-- **Run**: inside single quotes the quotes are doubled, up to the one that closes. -/
lemma exists_doubled (h : Ends ⟨"sstring", tails, u⟩ words) :
    ∃ s post later, u = doubled s ++ '\'' :: post ∧ Ends ⟨after tails, tails, post⟩ later := by
  generalize hx : Spot.mk "sstring" tails u = x at h
  induction h generalizing u with
  | nil =>
    have hstate : "sstring" = "end" := congrArg Spot.state hx
    exact absurd hstate (by decide)
  | @cons x r n words hchoice hs ih =>
    subst hx
    obtain ⟨rules, hchosen⟩ := hchoice.chosen
    have hsplit : u = u.take n ++ u.drop n := (List.take_append_drop n u).symm
    rcases single_rules hchosen with ⟨hland, htaken⟩ | ⟨hland, htaken⟩
    · obtain ⟨s, post, later, hrest, hends⟩ := ih (u := u.drop n) (by rw [Spot.past, hland])
      have hfirst : ∃ c, doubled c = u.take n := by
        rcases htaken with hplain | hquotes
        · exact ⟨_, doubled_of_plain hplain⟩
        · exact ⟨['\''], hquotes.symm⟩
      obtain ⟨c, hc⟩ := hfirst
      refine ⟨c ++ s, post, later, ?_, hends⟩
      rw [doubled_append, hc, List.append_assoc, ← hrest]
      exact hsplit
    · rw [Spot.past, hland] at hs
      exact ⟨[], u.drop n, _, by rw [htaken] at hsplit; exact hsplit, hs⟩

lemma role_mainRules (hr : r ∈ mainRules) : (tagOf r).role ≠ .skip := by
  have hall : ∀ r ∈ mainRules, (tagOf r).role ≠ .skip := by
    simp only [mainRules, List.forall_mem_cons]
    decide
  exact hall r hr

lemma wordOf_mainRules (hr : r ∈ mainRules) (text : String) :
    wordOf (tagOf r) text = [(tagOf r, text)] := by
  refine if_neg fun hblank => role_mainRules hr ?_
  obtain ⟨kind, hkind⟩ := role_of_isBlankToken hblank
  rw [show tagOf r = .skip kind from hkind]
  rfl

lemma past_of_quote (h : Chooses ⟨"main", tails, u⟩ r n) (htaken : u.take n = ['\'']) :
    Spot.past ⟨"main", tails, u⟩ r n = ⟨"sstring", tails, u.drop n⟩ := by
  have hpicks : Picks (spaceRules ++ mainRules) 8 _ ['\''] (u.drop n) :=
    picks_char (k := 0) rfl rfl rfl (by decide) _
  have hopens : Chooses ⟨"main", tails, ['\''] ++ u.drop n⟩ _ _ := hpicks.chooses mem_main
  rw [← htaken, List.take_append_drop] at hopens
  obtain ⟨rfl, -⟩ := h.unique hopens
  rfl

/-- **Run**: in front of the first word there is nothing but spacing, and if that is a single quote,
the scan goes on inside quotes. -/
lemma exists_spacing {word : Tag × String} (h : Ends ⟨"main", tails, u⟩ words)
    (hfirst : (words.find? fun w => w.1.role ≠ .skip) = some word) (hquote : word.2 = "'") :
    ∃ pre inner later, u = pre ++ '\'' :: inner ∧ Spacing ('\'' :: inner) pre ∧
      Ends ⟨"sstring", tails, inner⟩ later := by
  generalize hx : Spot.mk "main" tails u = x at h
  induction h generalizing u with
  | nil => cases hfirst
  | @cons x r n words hchoice hs ih =>
    subst hx
    obtain ⟨rules, hchosen⟩ := hchoice.chosen
    obtain rfl := rules_unique hchosen.state mem_main
    have hsplit : u = u.take n ++ u.drop n := (List.take_append_drop n u).symm
    rcases List.mem_append.1 hchosen.rule with hr | hr
    · rw [wordOf_of_blank (isBlankToken_spaceRules hr), List.nil_append] at hfirst
      obtain ⟨pre, inner, later, hrest, hspacing, hends⟩ :=
        ih hfirst (past_spaceRules hr ⟨"main", tails, u⟩ n).symm
      refine ⟨u.take n ++ pre, inner, later, ?_,
        hspacing.of_chooses hrest (by decide) hr hchoice, hends⟩
      rw [List.append_assoc, ← hrest]
      exact hsplit
    · have hrole : decide ((tagOf r).role ≠ .skip) = true := decide_eq_true (role_mainRules hr)
      rw [wordOf_mainRules hr, List.singleton_append, List.find?_cons_of_pos
        (p := fun w : Tag × String => decide (w.1.role ≠ .skip)) hrole] at hfirst
      obtain rfl := Option.some.inj hfirst
      have htaken : u.take n = ['\''] := String.ofList_injective hquote
      rw [past_of_quote hchoice htaken] at hs
      rw [htaken] at hsplit
      exact ⟨[], u.drop n, _, hsplit, .nil, hs⟩

/-- The first token of a text that is not skipped. -/
def firstToken? (input : String) : Option (Token Tag) :=
  ((tokens input defaultExcerptLength).1.map Scan.Entry.token).find? fun t => t.tag.role ≠ .skip

lemma find?_wordsOf (es : List (Scan.Entry Tag Nesting)) :
    ((wordsOf es).find? fun w => w.1.role ≠ .skip) =
      ((es.map Scan.Entry.token).find? fun t => t.tag.role ≠ .skip).map
        fun t => (t.tag, t.text) := by
  rw [wordsOf, skeleton, List.find?_map, List.find?_filter]
  congr 2
  funext t
  cases hblank : isBlankToken t
  · simp
  · obtain ⟨kind, hkind⟩ := role_of_isBlankToken hblank
    simp [hkind, Tag.skip]

/-- **Strings in single quotes are verbatim**, but for their quotes, which are doubled: each text
that is written like this is read back, and each text that is read and begins with a single quote
is written like this, with nothing but spacing around it. -/
theorem single_quotes_verbatim :
    (∀ s : String, parse (String.ofList (singleQuoted s.toList)) = .ok (.string s)) ∧
    ∀ input v t, parse input = .ok v → firstToken? input = some t → t.text = "'" →
      ∃ pre s post, input.toList = pre ++ (singleQuoted s.toList ++ post) ∧
        Spacing (singleQuoted s.toList ++ post) pre ∧ Spacing [] post ∧ v = .string s := by
  refine ⟨fun s => ?_, fun input v t hparse hfirst hquote => ?_⟩
  · have hempty : Spacing [] [] := .nil
    have := parse_singleQuoted s .nil hempty
    rwa [List.nil_append, List.append_nil] at this
  · obtain ⟨es, last, -, hpulls, hend, rfl, -⟩ := pulls_of_parse hparse
    have hends := ends_of_pulls hpulls (stands_scan _ _) hend
    have hword := (find?_wordsOf _).trans (congrArg (Option.map _) hfirst)
    obtain ⟨pre, inner, later, hinput, hpre, hinside⟩ := exists_spacing hends hword hquote
    obtain ⟨s, post, later', rfl, hbehind⟩ := exists_doubled hinside
    have hpost : Spacing [] post := spacing_of_ends hbehind
    have htext : '\'' :: (doubled s ++ '\'' :: post) =
        singleQuoted (String.ofList s).toList ++ post := by
      rw [String.toList_ofList]
      simp [singleQuoted]
    rw [htext] at hinput hpre
    refine ⟨pre, String.ofList s, post, hinput, hpre, hpost, ?_⟩
    have hread := parse_singleQuoted (String.ofList s) hpre hpost
    rw [← hinput, String.ofList_toList, hparse] at hread
    exact Except.ok.inj hread

/-- A doubled quote in a string between two comments. -/
theorem single_quotes_between_comments :
    parse "/**/'it''s' //x" = .ok (.string "it's") ∧
    ∃ pre s post, "/**/'it''s' //x".toList = pre ++ (singleQuoted s.toList ++ post) ∧
      Spacing (singleQuoted s.toList ++ post) pre ∧ Spacing [] post ∧
        Value.string "it's" = .string s := by
  have hparse : parse "/**/'it''s' //x" = .ok (.string "it's") := by
    rw [parse_eq_drain]
    rfl
  have hfirst : firstToken? "/**/'it''s' //x" = some ⟨.start .string, "'", 4, 5⟩ := by
    rw [firstToken?, tokens_eq_drain]
    decide +kernel
  exact ⟨hparse, single_quotes_verbatim.2 _ _ _ hparse hfirst rfl⟩

/-- Of three quotes the last two are one quote in a string that is not closed. -/
example : (parse "'''").toOption.isNone = true := by
  rw [parse_eq_drain]
  decide +kernel

end ScanTree.PropertyList
