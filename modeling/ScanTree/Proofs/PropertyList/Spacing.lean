import ScanTree.Proofs.PropertyList.Insertion

/-!
Whitespace and comments may be put between any two tokens of a text, but for a comment behind a key
without quotes, to which its slash would belong.
-/

namespace ScanTree.PropertyList

open Pattern Text

/-! ### Gaps -/

/-- A comment up to the end of its line. -/
def isLineToken (t : Token Tag) : Bool :=
  t.tag = .skip .comment && "//".toList.isPrefixOf t.text.toList

/-- A key without quotes. -/
def isBareKeyToken (t : Token Tag) : Bool := t.tag = .leaf .key && t.text.toList.head? != some '"'

/-- The states that the scan of a text is in at an offset. -/
def statesAt (input : String) (offset : Nat) : List String :=
  let scanned := tokens input defaultExcerptLength
  let contexts := scanned.1.map Scan.Entry.before ++ [scanned.2.1.context]
  (contexts.filter fun cx => cx.position = offset).map Context.state

/-- An offset where the scan of a text is outside of strings, at the start or the end of the text or
behind a token of some sort. -/
structure IsGap (input : String) (offset : Nat) (sort : Token Tag → Bool) : Prop where
  boundary : offset = 0 ∨ offset = byteSize input.toList ∨
    ∃ e ∈ (tokens input defaultExcerptLength).1, e.token.stop = offset ∧ sort e.token = true
  outside : ∀ q ∈ statesAt input offset, q ≠ "string" ∧ q ≠ "sstring"

/-- The text with something put in at an offset. -/
def insertAt? (filler : String) (offset : Nat) (input : String) : Option String :=
  (splitAtByte? offset input.toList).map fun p => String.ofList (p.1 ++ (filler.toList ++ p.2))

/-! ### The way to a gap -/

variable {s s' : Scan Tag Nesting} {es : List (Scan.Entry Tag Nesting)} {q : String}
  {tails : List String} {u w y before : List Char} {r : Rule Tag Nesting}
  {rules : List (Rule Tag Nesting)} {n : Nat} {t : Token Tag}

lemma byteSize_le_stop (hp : Pulls s es s') (hb : s.Behind before) :
    ∀ e ∈ es, byteSize before ≤ e.token.stop := by
  induction hp generalizing before with
  | nil s => simp
  | cons hnext _ ih =>
    obtain ⟨htakes, hbehind, -⟩ := hb.next hnext
    refine List.forall_mem_cons.2 ⟨?_, fun e he => ?_⟩
    · rw [← htakes.position, ← hbehind.offset, byteSize_append]
      exact Nat.le_add_right _ _
    · refine Nat.le_trans ?_ (ih hbehind e he)
      rw [byteSize_append]
      exact Nat.le_add_right _ _

lemma fits_of_token (hc : Chosen ⟨q, tails, u ++ y⟩ r u.length rules) (htag : t.tag = tagOf r)
    (htext : t.text = String.ofList u)
    (hline : isLineToken t = true → IsBlockComment w → '\n' ∉ w)
    (hkey : isBareKeyToken t = true → w.head? ≠ some '/') : Fits w r.ownPattern := by
  have htags := forall_rule (f := fun _ p tag =>
    (p = lineCommentPattern → tag = .skip .comment) ∧ (p = bareKeyPattern → tag = .leaf .key))
    (by decide) hc.state hc.rule
  have hspells := hc.spells
  rw [List.take_left] at hspells
  refine ⟨fun hp => hline ?_, fun hp => hkey ?_⟩
  · rw [hp] at hspells
    obtain ⟨x, hu, -⟩ := spells_lineComment hspells
    simp [isLineToken, htag, htags.1 hp, htext, hu]
  · rw [hp] at hspells
    obtain ⟨hset, -, -⟩ := spells_rep_set.1 hspells
    have hquote : u.head? ≠ some '"' := fun h =>
      absurd (hset '"' (List.mem_of_mem_head? h)) (by decide)
    simp [isBareKeyToken, htag, htags.2 hp, htext, hquote]

/-- Where a scan stands is outside of strings, if the next entry says so. -/
lemma outside_of_pulls (hp : Pulls s es s') (hs : Stands s ⟨q, tails, y⟩)
    (hend : Stands s' ⟨"end", [], []⟩)
    (hout : ∀ e ∈ es, e.before.position = s.context.position →
      e.before.state ≠ "string" ∧ e.before.state ≠ "sstring") : q ≠ "string" ∧ q ≠ "sstring" := by
  obtain ⟨place, hat, -⟩ := hs
  have hstate : s.context.state = q := hat.state
  cases hp with
  | nil =>
    obtain ⟨place', hat', -⟩ := hend
    have hend : s.context.state = "end" := hat'.state
    rw [← hstate, hend]
    decide
  | cons hnext _ =>
    rw [← hstate]
    exact hout _ List.mem_cons_self rfl

/-- A text that is read has a gap where one of its tokens ends outside of a string. -/
lemma gap_of_pulls (hp : Pulls s es s') (hs : Stands s ⟨q, tails, u ++ y⟩)
    (hend : Stands s' ⟨"end", [], []⟩) (hb : s.Behind before) (hu : u ≠ [])
    (hstop : y = [] ∨ ∃ e ∈ es, e.token.stop = byteSize (before ++ u))
    (hout : ∀ e ∈ es, e.before.position = byteSize (before ++ u) →
      e.before.state ≠ "string" ∧ e.before.state ≠ "sstring")
    (hline : ∀ e ∈ es, e.token.stop = byteSize (before ++ u) → isLineToken e.token = true →
      IsBlockComment w → '\n' ∉ w)
    (hkey : ∀ e ∈ es, e.token.stop = byteSize (before ++ u) → isBareKeyToken e.token = true →
      w.head? ≠ some '/') : Gap w y q tails u := by
  induction hp generalizing q tails u before with
  | nil s =>
    have htext : u ++ y = [] := congrArg Spot.text (hs.unique hend)
    exact absurd (List.append_eq_nil_iff.1 htext).1 hu
  | @cons s mid s' t log es hnext hp ih =>
    obtain ⟨r, n, hchoice, htag, htext, hmid⟩ := hs.next hnext
    obtain ⟨htakes, hbehind, -⟩ := hb.next hnext
    obtain ⟨rules, hchosen⟩ := hchoice.chosen
    have htaken : t.text.toList = (u ++ y).take n := by rw [htext, String.toList_ofList]
    have hoffset : t.stop = byteSize (before ++ (u ++ y).take n) := by
      rw [← htaken, hbehind.offset, htakes.position]
    rw [htaken] at hbehind
    have hu_take : (u ++ y).take u.length = u := List.take_left
    obtain ⟨-, hout'⟩ := List.forall_mem_cons.1 hout
    obtain ⟨hline₀, hline'⟩ := List.forall_mem_cons.1 hline
    obtain ⟨hkey₀, hkey'⟩ := List.forall_mem_cons.1 hkey
    rcases Nat.lt_trichotomy n u.length with hlt | rfl | hgt
    · -- The token ends before the gap.
      have htake : (u ++ y).take n = u.take n := List.take_append_of_le_length (Nat.le_of_lt hlt)
      have hsplit : before ++ u.take n ++ u.drop n = before ++ u := by
        rw [List.append_assoc, List.take_append_drop]
      have hrest : u.drop n ≠ [] := by
        rw [Ne, List.drop_eq_nil_iff]
        omega
      have hne : t.stop ≠ byteSize (before ++ u) := by
        have hshorter : byteSize (before ++ (u ++ y).take n) <
            byteSize (before ++ (u ++ y).take u.length) := byteSize_take_lt before hlt (by simp)
        rw [hu_take, ← hoffset] at hshorter
        exact hshorter.ne
      have hstop' : y = [] ∨ ∃ e ∈ es, e.token.stop = byteSize (before ++ u) := by
        refine hstop.imp_right fun ⟨e, he, hstop⟩ => ?_
        rcases List.mem_cons.1 he with rfl | he
        · exact absurd hstop hne
        · exact ⟨e, he, hstop⟩
      rw [Spot.past, List.drop_append_of_le_length (Nat.le_of_lt hlt)] at hmid
      rw [htake] at hbehind
      rw [← hsplit] at hstop' hout' hline' hkey'
      exact .step hchoice hlt (ih hmid hend hbehind hrest hstop' hout' hline' hkey')
    · rw [Spot.past, List.drop_left] at hmid
      rw [List.take_left] at hoffset hbehind
      have htext : t.text = String.ofList u := by rw [htext, List.take_left]
      refine .last hchoice hu (outside_of_pulls hp hmid hend ?_)
        (fits_of_token hchosen htag htext (hline₀ hoffset) (hkey₀ hoffset))
      rw [← hbehind.offset]
      exact hout'
    · -- A token that goes beyond would have all others behind it.
      exfalso
      have hle : n ≤ (u ++ y).length := hchosen.le
      have hlonger := byteSize_take_lt before hgt hle
      rw [hu_take] at hlonger
      rcases hstop with rfl | ⟨e, he, hstop⟩
      · simp only [List.append_nil] at hle
        omega
      · rcases List.mem_cons.1 he with rfl | he
        · have hstop : t.stop = byteSize (before ++ u) := hstop
          omega
        · have := byteSize_le_stop hp hbehind e he
          omega

/-! ### Insertion -/

variable {input filler : String} {offset : Nat} {v : Value}

lemma exists_split {excerptLength : Nat} (hp : Pulls (scan input excerptLength) es s')
    {e : Scan.Entry Tag Nesting} (he : e ∈ es) :
    ∃ u y, input.toList = u ++ y ∧ byteSize u = e.token.stop := by
  obtain ⟨fs, gs, rfl⟩ := List.append_of_mem he
  obtain ⟨mid, mid', log, hbefore, -, hnext⟩ := hp.split
  obtain ⟨before, hloc⟩ := located_of_pulls hbefore
  obtain ⟨htakes, hbehind, hinput, -⟩ := hloc.behind.next hnext
  obtain ⟨y, hsplit, -⟩ := hbehind.place
  exact ⟨_, y, by rw [← hsplit, hinput, hloc.input], hbehind.offset.trans htakes.position⟩

/-- What fits behind the tokens that end at a gap of a text can be put there. -/
theorem parse_insertAt {sort : Token Tag → Bool} (h : parse input = .ok v)
    (hgap : IsGap input offset sort) (hfiller : IsFiller filler.toList)
    (hline : ∀ e ∈ (tokens input defaultExcerptLength).1, e.token.stop = offset →
      isLineToken e.token = true → IsBlockComment filler.toList → '\n' ∉ filler.toList)
    (hkey : ∀ e ∈ (tokens input defaultExcerptLength).1, e.token.stop = offset →
      isBareKeyToken e.token = true → filler.toList.head? ≠ some '/') :
    ∃ text, insertAt? filler offset input = some text ∧ parse text = .ok v := by
  have hparse : parseWith {} input = .ok v := h
  obtain ⟨es, s', p, hpulls, hend, htokens, -⟩ := pulls_of_parse hparse
  have htokens : (tokens input defaultExcerptLength).1 = es := htokens
  rw [htokens] at hline hkey
  obtain ⟨u, y, hinput, hoffset, hstop⟩ : ∃ u y, input.toList = u ++ y ∧ byteSize u = offset ∧
      (u = [] ∨ y = [] ∨ ∃ e ∈ es, e.token.stop = offset) := by
    rcases hgap.boundary with rfl | rfl | ⟨e, he, hstop, -⟩
    · exact ⟨[], _, rfl, rfl, .inl rfl⟩
    · exact ⟨_, [], (List.append_nil _).symm, rfl, .inr (.inl rfl)⟩
    · rw [htokens] at he
      obtain ⟨u, y, hinput, hoffset⟩ := exists_split hpulls he
      exact ⟨u, y, hinput, hoffset.trans hstop, .inr (.inr ⟨e, he, hstop⟩)⟩
  have hout : ∀ e ∈ es, e.before.position = offset →
      e.before.state ≠ "string" ∧ e.before.state ≠ "sstring" := fun e he hposition => by
    refine hgap.outside _ (List.mem_map_of_mem (List.mem_filter.2 ⟨?_, by simpa using hposition⟩))
    rw [htokens]
    exact List.mem_append_left _ (List.mem_map_of_mem he)
  refine ⟨_, by rw [insertAt?, splitAtByte?_eq_some_iff.2 ⟨hinput, hoffset⟩]; rfl, ?_⟩
  rcases hw : filler.toList with _ | ⟨c, x⟩
  · show parse (String.ofList (u ++ ([] ++ y))) = .ok v
    rw [List.nil_append, ← hinput, String.ofList_toList]
    exact h
  rw [hw] at hfiller hline hkey
  have hstart : Stands (scan input defaultExcerptLength) ⟨"main", [], u ++ y⟩ := by
    rw [← hinput]
    exact stands_scan input defaultExcerptLength
  have hway : Gap (c :: x) y "main" [] u := by
    by_cases hu : u = []
    · rw [hu]
      exact .here "main" [] (by decide)
    · rw [← hoffset] at hstop hout hline hkey
      exact gap_of_pulls hpulls hstart hend (behind_start input _) hu (hstop.resolve_left hu) hout
        hline hkey
  refine parse_of_ends hparse fun words hwords => ?_
  rw [String.toList_ofList]
  rw [hinput] at hwords
  exact hway.ends hfiller hwords

/-- **Whitespace between tokens is irrelevant**: put in wherever a token of a text ends outside of a
string, at its start or at its end, it changes nothing of what is read. -/
theorem parse_insert_space (h : parse input = .ok v)
    (hgap : IsGap input offset fun _ => true) (hspace : IsSpace filler.toList) :
    ∃ text, insertAt? filler offset input = some text ∧ parse text = .ok v := by
  have hhead : filler.toList.head? ≠ some '/' := fun hslash =>
    absurd (hspace '/' (List.mem_of_mem_head? hslash)) (by decide)
  refine parse_insertAt h hgap (.inl hspace) (fun _ _ _ _ hblock => ?_) fun _ _ _ _ => hhead
  obtain ⟨c, hc, -⟩ := hblock
  rw [hc] at hhead
  exact absurd rfl hhead

set_option maxRecDepth 4000 in
/-- A line break with a tab between two chunks of data. -/
theorem parse_insert_space_chunks :
    ∃ text, insertAt? "\r\n\t" 9 "<0123456789>" = some text ∧
      parse text = .ok (.data ["01234567", "89"]) := by
  have hscan : (tokens "<0123456789>" defaultExcerptLength).1.any
      (fun e => e.token.stop == 9) = true ∧
      ∀ q ∈ statesAt "<0123456789>" 9, q ≠ "string" ∧ q ≠ "sstring" := by
    rw [statesAt, tokens_eq_drain]
    decide +kernel
  have hparse : parse "<0123456789>" = .ok (.data ["01234567", "89"]) := by
    rw [parse_eq_drain]
    rfl
  refine parse_insert_space hparse ⟨.inr (.inr (by simpa using hscan.1)), hscan.2⟩ ?_
  simp [IsSpace, spaceChars]

/-- **Comments are skipped between tokens**: put in wherever a token of a text ends outside of a
string, at its start or at its end, a comment changes nothing of what is read. It may not come
behind a key without quotes, and behind a comment up to the end of the line it must be one itself or
stay on the line. -/
theorem parse_insert_comment (h : parse input = .ok v)
    (hgap : IsGap input offset fun _ => true)
    (hcomment : IsBlockComment filler.toList ∨ IsLineComment filler.toList)
    (hkey : ∀ e ∈ (tokens input defaultExcerptLength).1, e.token.stop = offset →
      isBareKeyToken e.token = false)
    (hline : ∀ e ∈ (tokens input defaultExcerptLength).1, e.token.stop = offset →
      isLineToken e.token = true → IsBlockComment filler.toList → '\n' ∉ filler.toList) :
    ∃ text, insertAt? filler offset input = some text ∧ parse text = .ok v := by
  refine parse_insertAt h hgap (.inr hcomment) hline fun e he hstop hbare => ?_
  rw [hkey e he hstop] at hbare
  cases hbare

set_option maxRecDepth 4000 in
/-- A comment behind a key in quotes. -/
theorem parse_insert_comment_quoted :
    ∃ text, insertAt? "//b\n" 4 "\x7b\"a\"=1\x7d" = some text ∧
      parse text = .ok (.dict [("a", .integer 1)]) := by
  have hscan : (tokens "\x7b\"a\"=1\x7d" defaultExcerptLength).1.any
      (fun e => e.token.stop == 4) = true ∧
      (∀ q ∈ statesAt "\x7b\"a\"=1\x7d" 4, q ≠ "string" ∧ q ≠ "sstring") ∧
      ∀ e ∈ (tokens "\x7b\"a\"=1\x7d" defaultExcerptLength).1, e.token.stop = 4 →
        isBareKeyToken e.token = false := by
    rw [statesAt, tokens_eq_drain]
    decide +kernel
  have hparse : parse "\x7b\"a\"=1\x7d" = .ok (.dict [("a", .integer 1)]) := by
    rw [parse_eq_drain]
    rfl
  have hcomment : IsLineComment "//b\n".toList := ⟨['b'], rfl, by decide⟩
  refine parse_insert_comment hparse ⟨.inr (.inr (by simpa using hscan.1)), hscan.2.1⟩
    (.inr hcomment) hscan.2.2 ?_
  rintro e - - - ⟨c, hc, -⟩
  exact absurd hc (by simp)

/-- A comment changes what is read, though it is put where a scan is outside of strings, and behind
no comment up to the end of its line but at the end of the text. -/
def Breaks (comment : String) (offset : Nat) (input : String) : Prop :=
  (IsBlockComment comment.toList ∨ IsLineComment comment.toList) ∧
    IsGap input offset (fun t => !isLineToken t) ∧
    ∃ v text, parse input = .ok v ∧ insertAt? comment offset input = some text ∧
      parse text ≠ .ok v

/-- Without a star inside, a comment ends at the first. -/
lemma isBlockComment_of_not_mem {c : List Char} (hc : '*' ∉ c) :
    IsBlockComment ('/' :: '*' :: (c ++ ['*', '/'])) := by
  refine ⟨c, rfl, fun xs ys hsplit => ?_⟩
  rcases List.append_eq_append_iff.1 hsplit with ⟨zs, -, hrest⟩ | ⟨zs, rfl, hrest⟩
  · have hlength := congrArg List.length hrest
    simp only [List.length_append, List.length_cons, List.length_nil] at hlength
    exact List.eq_nil_of_length_eq_zero (by omega)
  · rcases zs with _ | ⟨d, zs⟩
    · simpa using hrest
    · obtain rfl : '*' = d := (List.cons.inj hrest).1
      exact absurd (by simp) hc

set_option maxRecDepth 4000 in
/-- Behind a key without quotes the slash of a comment belongs to the key, and behind a comment up
to the end of its line only the first line of another one is a comment. -/
theorem comments_join_tokens :
    Breaks "/**/" 2 "\x7ba=1\x7d" ∧ Breaks "/*\n*/" 3 "1//" := by
  constructor
  · have hscan : (tokens "\x7ba=1\x7d" defaultExcerptLength).1.any
        (fun e => e.token.stop == 2 && !isLineToken e.token) = true ∧
        ∀ q ∈ statesAt "\x7ba=1\x7d" 2, q ≠ "string" ∧ q ≠ "sstring" := by
      rw [statesAt, tokens_eq_drain]
      decide +kernel
    have hparse : parse "\x7ba=1\x7d" = .ok (.dict [("a", .integer 1)]) := by
      rw [parse_eq_drain]
      rfl
    have hnone : (parse "\x7ba/**/=1\x7d").toOption.isNone = true := by
      rw [parse_eq_drain]
      decide +kernel
    refine ⟨.inl (isBlockComment_of_not_mem (c := []) (by simp)),
      ⟨.inr (.inr (by simpa using hscan.1)), hscan.2⟩, _, "\x7ba/**/=1\x7d", hparse, rfl,
      fun hread => ?_⟩
    rw [hread] at hnone
    cases hnone
  · have hscan : ∀ q ∈ statesAt "1//" 3, q ≠ "string" ∧ q ≠ "sstring" := by
      rw [statesAt, tokens_eq_drain]
      decide +kernel
    have hparse : parse "1//" = .ok (.integer 1) := by
      rw [parse_eq_drain]
      rfl
    have hnone : (parse "1///*\n*/").toOption.isNone = true := by
      rw [parse_eq_drain]
      decide +kernel
    refine ⟨.inl (isBlockComment_of_not_mem (c := ['\n']) (by simp)),
      ⟨.inr (.inl rfl), hscan⟩, _, "1///*\n*/", hparse, rfl, fun hread => ?_⟩
    rw [hread] at hnone
    cases hnone

end ScanTree.PropertyList
