import ScanTree.Proofs.PropertyList.Embedding

/-!
Whitespace and comments between tokens.

Wherever a scan is not inside a string, it reads the same with whitespace or a comment in front of
it as without. How the whitespace is cut into tokens hangs on what follows, so both texts are
compared with the one that has none of it.
-/

namespace ScanTree.PropertyList

open Pattern

/-! ### What is left to read -/

def wordOf (tag : Tag) (text : String) : List (Tag × String) :=
  if isBlankToken ⟨tag, "", 0, 0⟩ then [] else [(tag, text)]

def wordsOf (es : List (Scan.Entry Tag Nesting)) : List (Tag × String) :=
  (skeleton es).map fun t => (t.tag, t.text)

lemma wordOf_of_blank {tag : Tag} (h : isBlankToken ⟨tag, "", 0, 0⟩ = true) (text : String) :
    wordOf tag text = [] := if_pos h

/-- From the spot a scan comes to the end of its text with nothing open, and these words on the
way. -/
inductive Ends : Spot → List (Tag × String) → Prop
  | nil : Ends ⟨"end", [], []⟩ []
  | cons {x : Spot} {r : Rule Tag Nesting} {n : Nat} {words : List (Tag × String)}
      (h : Chooses x r n) (hs : Ends (x.past r n) words) :
      Ends x (wordOf (tagOf r) (String.ofList (x.text.take n)) ++ words)

variable {s s' : Scan Tag Nesting} {e : Scan.Entry Tag Nesting}
  {es : List (Scan.Entry Tag Nesting)} {x y z : Spot} {r : Rule Tag Nesting} {n : Nat}
  {words : List (Tag × String)}

lemma wordsOf_cons (e : Scan.Entry Tag Nesting) (es : List (Scan.Entry Tag Nesting)) :
    wordsOf (e :: es) = wordOf e.token.tag e.token.text ++ wordsOf es := by
  have hsplit : skeleton (e :: es) = skeleton [e] ++ skeleton es := skeleton_append [e] es
  have hblank : isBlankToken ⟨e.token.tag, "", 0, 0⟩ = isBlankToken e.token := isBlankToken_eq rfl
  rw [wordsOf, hsplit, List.map_append, wordOf, hblank]
  rcases he : isBlankToken e.token with _ | _
  · rw [skeleton_of_not_blank he]
    rfl
  · rw [skeleton_of_blank he]
    rfl

lemma ends_of_pulls (hp : Pulls s es s') (hs : Stands s x) (hend : Stands s' ⟨"end", [], []⟩) :
    Ends x (wordsOf es) := by
  induction hp generalizing x with
  | nil s =>
    rw [hs.unique hend]
    exact .nil
  | cons hnext _ ih =>
    obtain ⟨r, n, hchoice, htag, htext, hs'⟩ := hs.next hnext
    rw [wordsOf_cons, htag, htext]
    exact .cons hchoice (ih hs' hend)

lemma Ends.pulls (h : Ends x words) (hs : Stands s x) :
    ∃ es s', Pulls s es s' ∧ wordsOf es = words ∧ Stands s' ⟨"end", [], []⟩ := by
  induction h generalizing s with
  | nil => exact ⟨[], s, .nil s, rfl, hs⟩
  | cons hchoice _ ih =>
    obtain ⟨t, mid, log, hnext, htag, htext, hmid⟩ := hchoice.pulls hs
    obtain ⟨es, s', hp, hwords, hend⟩ := ih hmid
    exact ⟨_, s', .cons hnext hp, by rw [wordsOf_cons, htag, htext, hwords], hend⟩

lemma twins_of_words {ts us : List (Token Tag)}
    (h : ts.map (fun t => (t.tag, t.text)) = us.map fun t => (t.tag, t.text)) : Twins ts us := by
  have hall : List.Forall₂ (fun a b => a = b) (ts.map fun t => (t.tag, t.text))
      (us.map fun t => (t.tag, t.text)) := by
    rw [h, List.forall₂_same]
    exact fun _ _ => rfl
  rw [List.forall₂_map_left_iff, List.forall₂_map_right_iff] at hall
  exact hall.imp fun t u heq =>
    ⟨(congrArg Prod.fst heq).symm, (congrArg Prod.snd heq).symm⟩

/-- A text with the same words is read as the same value. -/
theorem parse_of_ends {options : Options} {input text : String} {v : Value}
    (h : parseWith options input = .ok v)
    (hwords : ∀ words, Ends ⟨"main", [], input.toList⟩ words →
      Ends ⟨"main", [], text.toList⟩ words) : parseWith options text = .ok v := by
  obtain ⟨es, s, p, hpulls, hend, -, hp, hv, -⟩ := pulls_of_parse h
  have hends := ends_of_pulls hpulls (stands_scan input options.excerptLength) hend
  obtain ⟨es', s', hpulls', hsame, hend'⟩ :=
    (hwords _ hends).pulls (stands_scan text options.excerptLength)
  have htwins : Twins p.tokens (skeleton es') := by
    rw [hp]
    exact twins_of_words hsame.symm
  obtain ⟨p', hp', hv'⟩ := p.twin htwins
  obtain ⟨last, log, hn⟩ := next_of_end hend'
  have htokens := tokens_eq hpulls' hn rfl
  exact parseWith_of_phrase (by rw [htokens]; exact hp') (hv'.trans hv) (by rw [htokens])

/-! ### Blanks in front of a text -/

def Same (x y : Spot) : Prop := ∀ words, Ends x words ↔ Ends y words

lemma Same.refl (x : Spot) : Same x x := fun _ => Iff.rfl

lemma Same.symm (h : Same x y) : Same y x := fun words => (h words).symm

lemma Same.trans (h : Same x y) (h' : Same y z) : Same x z :=
  fun words => (h words).trans (h' words)

lemma Ends.of_chooses (h : Ends x words) (hchoice : Chooses x r n) :
    ∃ rest, Ends (x.past r n) rest ∧
      words = wordOf (tagOf r) (String.ofList (x.text.take n)) ++ rest := by
  cases h with
  | nil =>
    obtain ⟨rules, hchosen⟩ := hchoice.chosen
    obtain ⟨hidle, -⟩ := hchosen.idle (Nat.le_zero.1 hchosen.le)
    cases hidle
  | cons hchoice' hs =>
    obtain ⟨rfl, rfl⟩ := hchoice.unique hchoice'
    exact ⟨_, hs, rfl⟩

lemma Chooses.same (h : Chooses x r n) (hblank : isBlankToken ⟨tagOf r, "", 0, 0⟩ = true) :
    Same x (x.past r n) := by
  have hword : ∀ text, wordOf (tagOf r) text = [] := wordOf_of_blank hblank
  refine fun words => ⟨fun hx => ?_, fun hpast => ?_⟩
  · obtain ⟨rest, hrest, rfl⟩ := hx.of_chooses h
    rwa [hword]
  · have := Ends.cons h hpast
    rwa [hword] at this

lemma isBlankToken_spaceRules (hr : r ∈ spaceRules) : isBlankToken ⟨tagOf r, "", 0, 0⟩ = true := by
  have hall : ∀ r ∈ spaceRules, isBlankToken ⟨tagOf r, "", 0, 0⟩ = true := by
    simp only [spaceRules, List.forall_mem_cons]
    refine ⟨by decide, by decide, by decide, by decide, by simp⟩
  exact hall r hr

variable {q : String} {tails : List String} {rules more : List (Rule Tag Nesting)} {i : Nat}
  {w rest : List Char}

lemma Picks.same (h : Picks (spaceRules ++ more) i r w rest)
    (hq : (q, spaceRules ++ more) ∈ ruleTable) (hr : r ∈ spaceRules) (tails : List String) :
    Same ⟨q, tails, w ++ rest⟩ ⟨q, tails, rest⟩ := by
  have hchoice : Chooses ⟨q, tails, w ++ rest⟩ r w.length := h.chooses hq
  have := hchoice.same (isBlankToken_spaceRules hr)
  rw [past_spaceRules hr] at this
  rwa [List.drop_left] at this

/-! ### Whitespace -/

def spaceChars : List Char := [' ', '\t', '\r', '\n']

/-- A text of whitespace alone. -/
def IsSpace (w : List Char) : Prop := ∀ c ∈ w, c ∈ spaceChars

lemma mem_spaceChars {c : Char} : c ∈ spaceChars ↔ c = '\n' ∨ blankSet.contains c = true := by
  rw [contains_blankSet]
  simp only [spaceChars, List.mem_cons, List.not_mem_nil, or_false]
  tauto

lemma exists_blank (hq : (q, spaceRules ++ more) ∈ ruleTable) (tails : List String) {c : Char}
    (hw : IsSpace (c :: w)) (hrest : ∀ d ∈ rest.head?, d ∉ spaceChars) :
    ∃ u v, c :: w = u ++ v ∧ u ≠ [] ∧ Same ⟨q, tails, u ++ (v ++ rest)⟩ ⟨q, tails, v ++ rest⟩ := by
  have hreturn : rest.head? ≠ some '\r' := fun h => hrest '\r' h (by decide)
  rcases mem_spaceChars.1 (hw c List.mem_cons_self) with rfl | hc
  · by_cases hr : w.head? = some '\r'
    · obtain ⟨w, rfl⟩ : ∃ w', w = '\r' :: w' := by
        rcases w with _ | ⟨d, w⟩
        · cases hr
        · exact ⟨w, by rw [Option.some.inj hr]⟩
      exact ⟨['\n', '\r'], w, rfl, by simp,
        (picks_newline hq (.inl rfl)).same hq (by simp [spaceRules]) tails⟩
    · have hnext : (w ++ rest).head? ≠ some '\r' := by
        rcases w with _ | ⟨d, w⟩
        · exact hreturn
        · exact hr
      exact ⟨['\n'], w, rfl, by simp,
        (picks_newline hq (.inr ⟨rfl, hnext⟩)).same hq (by simp [spaceRules]) tails⟩
  · -- All blanks up to the next line feed are one token.
    let u := (c :: w).takeWhile blankSet.contains
    let v := (c :: w).dropWhile blankSet.contains
    have hu : u ≠ [] := by simp [u, hc]
    have hsolid : Solid (v ++ rest) := by
      refine solid_iff.2 ?_
      rcases hv : v with _ | ⟨d, v'⟩
      · rcases rest with _ | ⟨d, rest⟩
        · rfl
        · exact Bool.eq_false_iff.2 fun h => hrest d rfl (mem_spaceChars.2 (.inr h))
      · have hstop := List.head?_dropWhile_not blankSet.contains (c :: w)
        rw [show (c :: w).dropWhile blankSet.contains = d :: v' from hv] at hstop
        exact hstop
    refine ⟨u, v, List.takeWhile_append_dropWhile.symm, hu, ?_⟩
    exact (picks_blanks hq hu (fun d hd => List.mem_takeWhile_imp hd) hsolid).same hq
      (by simp [spaceRules]) tails

lemma same_of_space_solid (hq : (q, spaceRules ++ more) ∈ ruleTable) (tails : List String)
    (hw : IsSpace w) (hrest : ∀ c ∈ rest.head?, c ∉ spaceChars) :
    Same ⟨q, tails, w ++ rest⟩ ⟨q, tails, rest⟩ := by
  induction hn : w.length using Nat.strong_induction_on generalizing w with
  | _ n ih =>
    rcases w with _ | ⟨c, w⟩
    · exact .refl _
    · obtain ⟨u, v, huv, hu, hsame⟩ := exists_blank hq tails hw hrest
      have hv : IsSpace v := fun d hd => hw d (by rw [huv]; exact List.mem_append_right u hd)
      have hlt : v.length < n := by
        have := List.length_pos_iff.2 hu
        rw [← hn, huv, List.length_append]
        omega
      rw [huv, List.append_assoc]
      exact hsame.trans (ih _ hlt hv rfl)

/-- **Whitespace**: in front of a text it makes no difference. -/
lemma same_of_space (hq : (q, spaceRules ++ more) ∈ ruleTable) (tails : List String)
    (hw : IsSpace w) (rest : List Char) : Same ⟨q, tails, w ++ rest⟩ ⟨q, tails, rest⟩ := by
  let p : Char → Bool := fun c => c ∈ spaceChars
  have hspace : IsSpace (rest.takeWhile p) := fun c hc => by
    simpa [p] using List.mem_takeWhile_imp hc
  have hsolid : ∀ c ∈ (rest.dropWhile p).head?, c ∉ spaceChars := fun c hc => by
    have hstop := List.head?_dropWhile_not p rest
    rw [Option.mem_def.1 hc] at hstop
    simpa [p] using hstop
  have hrest : rest = rest.takeWhile p ++ rest.dropWhile p := List.takeWhile_append_dropWhile.symm
  have hboth : IsSpace (w ++ rest.takeWhile p) := fun c hc =>
    (List.mem_append.1 hc).elim (hw c) (hspace c)
  have hlong := same_of_space_solid hq tails hboth hsolid
  rw [List.append_assoc, ← hrest] at hlong
  have hshort := same_of_space_solid hq tails hspace hsolid
  rw [← hrest] at hshort
  exact hlong.trans hshort.symm

/-! ### Comments -/

/-- A comment that ends with the first star and slash behind those that it begins with. -/
def IsBlockComment (w : List Char) : Prop :=
  ∃ c, w = '/' :: '*' :: (c ++ ['*', '/']) ∧
    ∀ xs ys, c ++ ['*', '/'] = xs ++ '*' :: '/' :: ys → ys = []

/-- A comment with the line feed that it ends before. -/
def IsLineComment (w : List Char) : Prop := ∃ c, w = '/' :: '/' :: (c ++ ['\n']) ∧ '\n' ∉ c

lemma ownPattern_blockComment :
    (lineRule "/\\*.*?\\*/" (.skip .comment) .stay).ownPattern = blockCommentPattern :=
  ownPattern_eq (k := 10) (i := 3) rfl rfl rfl rfl

/-- The end of a comment does not match before it comes. -/
lemma starSlash_ways_eq_nil {c : List Char} {run : Run}
    (hc : ∀ xs ys, c ++ ['*', '/'] = xs ++ '*' :: '/' :: ys → ys = [])
    (hrun : run.place.rest = c ++ '*' :: '/' :: rest) {k : Nat} (hk : k < c.length) :
    (seq (.set (.char '*')) (.set (.char '/'))).ways (run.ahead k) = [] := by
  refine List.eq_nil_iff_forall_not_mem.2 fun stop hstop => ?_
  obtain ⟨w, ⟨a, b, ha, hb, rfl⟩, hrest, -⟩ := covers_of_mem_ways hstop
  obtain rfl := spells_char (by decide) ha
  obtain rfl := spells_char (by decide) hb
  obtain ⟨xs, d, us, rfl, rfl⟩ : ∃ xs d us, c = xs ++ d :: us ∧ k = xs.length := by
    have hdrop : c.drop k ≠ [] := by
      rw [Ne, List.drop_eq_nil_iff]
      omega
    obtain ⟨d, us, hus⟩ := List.exists_cons_of_ne_nil hdrop
    exact ⟨c.take k, d, us, by rw [← hus, List.take_append_drop],
      (List.length_take_of_le (Nat.le_of_lt hk)).symm⟩
  rw [Run.rest_ahead, hrun, List.append_assoc, List.drop_left] at hrest
  obtain ⟨hd, htail⟩ : d = '*' ∧ us ++ '*' :: '/' :: rest = '/' :: stop.place.rest :=
    List.cons.inj hrest
  rcases us with _ | ⟨d', us⟩
  · exact absurd (List.cons.inj htail).1 (by decide)
  · have hd' : d' = '/' := (List.cons.inj htail).1
    have hnil := hc xs (us ++ ['*', '/']) (by rw [hd, hd']; simp)
    simp at hnil

/-- The rules in front of that of comments in stars take none. -/
lemma refuses_blockComment (hq : (q, spaceRules ++ more) ∈ ruleTable) {place : Place}
    {t : List Char} (hplace : place.rest = '/' :: '*' :: t) :
    ∀ y ∈ (spaceRules ++ more).take 3, y.ownPattern.match? place = none := by
  intro y hy
  have hplain : y.ownPattern.isPlain := isPlain_of_rule hq (List.mem_of_mem_take hy)
  have hy : y ∈ spaceRules.take 3 := hy
  have hy : y.ownPattern ∈ spacePatterns.take 3 := by
    rw [← patterns_spaceRules, ← List.map_take]
    exact List.mem_map_of_mem hy
  have hhead : place.rest.head? = some '/' := by rw [hplace]; rfl
  simp only [spacePatterns, List.take_succ_cons, List.take_zero, List.mem_cons, List.not_mem_nil,
    or_false] at hy
  rcases hy with hy | hy | hy <;> rw [hy] at hplain ⊢
  · exact match?_eq_none_of_opens hplain (by rw [hhead]; decide)
  · exact match?_eq_none_of_opens hplain (by rw [hhead]; decide)
  · refine match?_eq_none hplain fun u v huv hu => ?_
    have htake : ('/' :: '*' :: t).take u.length = u := by
      rw [← hplace, huv, List.take_left]
    rw [← htake] at hu
    exact not_spells_lineComment _ _ hu

lemma leads_blockComment {c : List Char} {run : Run}
    (hc : ∀ xs ys, c ++ ['*', '/'] = xs ++ '*' :: '/' :: ys → ys = [])
    (hrun : run.place.rest = '/' :: '*' :: (c ++ '*' :: '/' :: rest)) :
    blockCommentPattern.Leads run (1 + (1 + (c.length + (1 + 1)))) := by
  have hstar : (CharSet.char '*').contains '*' = true := (CharSet.contains_char (by decide)).2 rfl
  have hslash : (CharSet.char '/').contains '/' = true := (CharSet.contains_char (by decide)).2 rfl
  have hone : (run.ahead 1).place.rest = '*' :: (c ++ '*' :: '/' :: rest) := by
    rw [Run.rest_ahead, hrun]
    rfl
  have htwo : ((run.ahead 1).ahead 1).place.rest = c ++ '*' :: '/' :: rest := by
    rw [Run.rest_ahead, hone]
    rfl
  have hclose : (((run.ahead 1).ahead 1).ahead c.length).place.rest = '*' :: '/' :: rest := by
    rw [Run.rest_ahead, htwo, List.drop_left]
  have hlast : ((((run.ahead 1).ahead 1).ahead c.length).ahead 1).place.rest = '/' :: rest := by
    rw [Run.rest_ahead, hclose]
    rfl
  have hany : ∀ d ∈ c, CharSet.any.contains d = true := fun d _ => by
    have := CharSet.rank_le_lastRank d
    simpa [CharSet.any, CharSet.contains, CharSet.has] using this
  exact (leads_set hrun hslash).seq ((leads_set hone hstar).seq
    (leads_lazy htwo hany (fun k hk => starSlash_ways_eq_nil hc htwo hk)
      ((leads_set hclose hstar).seq (leads_set hlast hslash))))

lemma picks_blockComment (hq : (q, spaceRules ++ more) ∈ ruleTable) (hw : IsBlockComment w)
    (rest : List Char) :
    Picks (spaceRules ++ more) 3 (lineRule "/\\*.*?\\*/" (.skip .comment) .stay) w rest := by
  obtain ⟨c, rfl, hc⟩ := hw
  have htext :
      '/' :: '*' :: (c ++ ['*', '/']) ++ rest = '/' :: '*' :: (c ++ '*' :: '/' :: rest) := by
    simp
  have hlength : ('/' :: '*' :: (c ++ ['*', '/'])).length = 1 + (1 + (c.length + (1 + 1))) := by
    simp only [List.length_cons, List.length_append, List.length_nil]
    omega
  refine ⟨rfl, fun place hplace => refuses_blockComment hq hplace, fun run hrun => ?_⟩
  rw [htext] at hrun
  rw [ownPattern_blockComment, hlength]
  exact leads_blockComment hc hrun

lemma same_of_blockComment (hq : (q, spaceRules ++ more) ∈ ruleTable) (tails : List String)
    (hw : IsBlockComment w) (rest : List Char) :
    Same ⟨q, tails, w ++ rest⟩ ⟨q, tails, rest⟩ :=
  (picks_blockComment hq hw rest).same hq (by simp [spaceRules]) tails

/-- A comment takes the rest of the line and leaves the line feed. -/
lemma same_of_line (hq : (q, spaceRules ++ more) ∈ ruleTable) (tails : List String)
    {t : List Char} (ht : '\n' ∉ t) (hrest : ∀ c ∈ rest.head?, c = '\n') :
    Same ⟨q, tails, '/' :: '/' :: (t ++ rest)⟩ ⟨q, tails, rest⟩ :=
  (picks_lineComment hq ht hrest).same hq (by simp [spaceRules]) tails

lemma isSpace_lineFeed : IsSpace ['\n'] := by simp [IsSpace, spaceChars]

lemma same_of_lineComment (hq : (q, spaceRules ++ more) ∈ ruleTable) (tails : List String)
    (hw : IsLineComment w) (rest : List Char) : Same ⟨q, tails, w ++ rest⟩ ⟨q, tails, rest⟩ := by
  obtain ⟨c, rfl, hc⟩ := hw
  have hline : Same ⟨q, tails, '/' :: '/' :: (c ++ '\n' :: rest)⟩ ⟨q, tails, '\n' :: rest⟩ :=
    same_of_line hq tails hc (by simp)
  have htext : '/' :: '/' :: (c ++ ['\n']) ++ rest = '/' :: '/' :: (c ++ '\n' :: rest) := by simp
  rw [htext]
  exact hline.trans (same_of_space hq tails isSpace_lineFeed rest)

/-! ### Fillers -/

/-- What may stand between two tokens. -/
def IsFiller (w : List Char) : Prop := IsSpace w ∨ IsBlockComment w ∨ IsLineComment w

/-- **Fillers**: outside of strings whitespace or a comment makes no difference. -/
theorem same_of_filler (hq : (q, rules) ∈ ruleTable) (houtside : q ≠ "string" ∧ q ≠ "sstring")
    (tails : List String) (hw : IsFiller w) (rest : List Char) :
    Same ⟨q, tails, w ++ rest⟩ ⟨q, tails, rest⟩ := by
  obtain ⟨more, rfl⟩ := exists_spaceRules hq houtside.1 houtside.2
  rcases hw with hw | hw | hw
  · exact same_of_space hq tails hw rest
  · exact same_of_blockComment hq tails hw rest
  · exact same_of_lineComment hq tails hw rest

/-- Behind a comment up to the end of the line, the line goes on with a filler. -/
lemma same_behind_line (hq : (q, spaceRules ++ more) ∈ ruleTable) (tails : List String)
    {t : List Char} (ht : '\n' ∉ t) (hw : IsFiller w) (hblock : IsBlockComment w → '\n' ∉ w)
    (hrest : ∀ c ∈ rest.head?, c = '\n') :
    Same ⟨q, tails, '/' :: '/' :: (t ++ (w ++ rest))⟩ ⟨q, tails, rest⟩ := by
  -- Up to its first line feed the filler is part of the comment, and after it there is whitespace.
  have hsplit : '\n' ∉ w ∨ ∃ u v, w = u ++ '\n' :: v ∧ '\n' ∉ u ∧ IsSpace v := by
    by_cases hmem : '\n' ∈ w
    · right
      rcases hw with hw | hw | ⟨c, rfl, hc⟩
      · obtain ⟨u, v, rfl, hu⟩ := List.eq_append_cons_of_mem hmem
        exact ⟨u, v, rfl, hu, fun c hc => hw c (by simp [hc])⟩
      · exact absurd hmem (hblock hw)
      · exact ⟨'/' :: '/' :: c, [], rfl, by simpa using hc, by simp [IsSpace]⟩
    · exact .inl hmem
  rcases hsplit with hw | ⟨u, v, rfl, hu, hv⟩
  · rw [← List.append_assoc]
    exact same_of_line hq tails (by simp [ht, hw]) hrest
  · have hline : Same ⟨q, tails, '/' :: '/' :: (t ++ u ++ '\n' :: (v ++ rest))⟩
        ⟨q, tails, '\n' :: (v ++ rest)⟩ :=
      same_of_line hq tails (by simp [ht, hu]) (by simp)
    have hspace : IsSpace ('\n' :: v) := List.forall_mem_cons.2 ⟨by decide, hv⟩
    have htext : t ++ (u ++ '\n' :: v ++ rest) = t ++ u ++ '\n' :: (v ++ rest) := by simp
    rw [htext]
    exact hline.trans (same_of_space hq tails hspace rest)

end ScanTree.PropertyList
