import Mathlib.Data.List.TakeWhile
import ScanTree.Proofs.PropertyList.Marks

/-!
Reading strings, keys and data blocks as they are written.

A string and a key are quoted in different ways, and each is read back by rules of its own.
-/

namespace ScanTree.PropertyList

open Pattern

variable {tails : List String} {rest : List Char}

/-! ### Strings -/

/-- A character stands in a string as it is, or as an escape that is read as it. -/
lemma stringChar_cases (c : Char) :
    stringChar c = [c] ∧ insideSet.contains c = true ∨
    ∃ e, stringChar c = ['\\', e] ∧ escapeSet.contains e = true ∧
      escapeChar? ['\\', e] = some c := by
  unfold stringChar
  split_ifs with hquote hslash h1 h2 h3 h4 h5
  · exact .inr ⟨'"', rfl, by decide, by rw [hquote]; rfl⟩
  · exact .inr ⟨'\\', rfl, by decide, by rw [hslash]; rfl⟩
  · exact .inr ⟨'n', rfl, by decide, by rw [h1]; rfl⟩
  · exact .inr ⟨'r', rfl, by decide, by rw [h2]; rfl⟩
  · exact .inr ⟨'t', rfl, by decide, by rw [h3]; rfl⟩
  · exact .inr ⟨'b', rfl, by decide, by rw [h4]; rfl⟩
  · exact .inr ⟨'f', rfl, by decide, by rw [h5]; rfl⟩
  · exact .inl ⟨rfl, contains_insideSet.2 ⟨hquote, hslash⟩⟩

def Parts (text : List Char) (ts : List (Token Tag)) : Prop :=
  ∃ parts : List Part, parts.map Subtype.val = ts ∧
    ∃ texts, (parts.mapM fun t => partText t.1) = .ok texts ∧ texts.flatten = text

lemma parts_nil : Parts [] [] := ⟨[], rfl, [], rfl, rfl⟩

lemma parts_cons {t : Token Tag} (ht : t.tag = .leaf .chars ∨ t.tag = .leaf .escape)
    {w text : List Char} (hw : partText t = .ok w) {ts : List (Token Tag)} (h : Parts text ts) :
    Parts (w ++ text) (t :: ts) := by
  obtain ⟨parts, rfl, texts, htexts, rfl⟩ := h
  exact ⟨⟨t, ht⟩ :: parts, rfl, w :: texts, by rw [List.mapM_cons, hw, htexts]; rfl, rfl⟩

def EndsRun (text : List Char) : Prop := ∀ c ∈ text.head?, insideSet.contains c = false

/-- The first rule inside quotes takes all plain characters that come. -/
lemma reads_run {k : Nat} {q source : String} {rules : List (Rule Tag Nesting)} {set : CharSet}
    {ps : List Pattern}
    (hq : ruleTable[k]? = some (q, lineRule source (.leaf .chars) .stay :: rules))
    (hps : patternTable[k]? = some (rep (.set set) 1 none true :: ps)) {w : List Char}
    (hne : w ≠ [])
    (hw : ∀ c ∈ w, set.contains c = true) (hrest : ∀ c ∈ rest.head?, set.contains c = false) :
    Reads ⟨q, tails, w ++ rest⟩ (Single (.leaf .chars) w) ⟨q, tails, rest⟩ := by
  have hmem := List.mem_of_getElem? hq
  have hpicks : Picks _ 0 _ w rest := picks_of_refuses hmem rfl rfl fun run hrun => by
    rw [ownPattern_eq (i := 0) hq rfl hps rfl]
    refine leads_rep_set hrun hw (List.length_pos_of_ne_nil hne) (by simp) (.inr ?_)
    rcases rest with _ | ⟨c, cs⟩
    · rfl
    · exact hrest c rfl
  exact hpicks.reads_plain hmem rfl

lemma reads_escape {e : Char} (he : escapeSet.contains e = true) (tails : List String)
    (rest : List Char) :
    Reads ⟨"string", tails, '\\' :: e :: rest⟩ (Single (.leaf .escape) ['\\', e])
      ⟨"string", tails, rest⟩ := by
  have hmem : ("string", _) ∈ ruleTable := List.mem_of_getElem? (i := 2) rfl
  have hbefore : refuses [lineRule "[^\"\\\\]+" (.leaf .chars) .stay] (some '\\') = true := by
    decide +kernel
  have hspells : escapePattern.Spells (['\\'] ++ [e]) :=
    spells_seq ⟨'\\', by decide, rfl⟩ ⟨e, he, rfl⟩
  have hpicks : Picks _ 1 _ ['\\', e] rest :=
    picks_of_refuses hmem rfl hbefore fun run hrun => by
      rw [ownPattern_escape]
      exact leads_of_isRigid (by decide) hspells hrun
  exact hpicks.reads_plain hmem (by decide)

lemma partText_chars {t : Token Tag} {w : List Char} (ht : t.tag = .leaf .chars)
    (htext : t.text = String.ofList w) : partText t = .ok w := by
  rw [partText, if_neg (by rw [ht]; decide), htext, String.toList_ofList]

lemma partText_escape {t : Token Tag} {w : List Char} {c : Char} (ht : t.tag = .leaf .escape)
    (htext : t.text = String.ofList w) (hc : escapeChar? w = some c) :
    partText t = .ok [c] := by
  have hkind : t.tag.kind = .escape := by rw [ht]; rfl
  simp only [partText, hkind, if_true, htext, String.toList_ofList, hc]

lemma exists_run (p : Char → Prop) [DecidablePred p] {c : Char} (hc : p c) (s : List Char) :
    ∃ run more, c :: s = run ++ more ∧ run ≠ [] ∧ (∀ d ∈ run, p d) ∧ ∀ d ∈ more.head?, ¬ p d := by
  let plain : Char → Bool := fun d => p d
  refine ⟨(c :: s).takeWhile plain, (c :: s).dropWhile plain,
    List.takeWhile_append_dropWhile.symm, ?_, fun d hd => ?_, fun d hd => ?_⟩
  · rw [List.takeWhile_cons_of_pos (by simpa [plain] using hc)]
    simp
  · simpa [plain] using List.mem_takeWhile_imp hd
  · have := List.head?_dropWhile_not plain (c :: s)
    rw [Option.mem_def.1 hd] at this
    simpa [plain] using this

/-- Induction on a text along its longest runs of characters of one sort. -/
lemma induction_on_runs (p : Char → Prop) [DecidablePred p] {motive : List Char → Prop}
    (nil : motive []) (single : ∀ c s, ¬ p c → motive s → motive (c :: s))
    (run : ∀ w more, w ≠ [] → (∀ d ∈ w, p d) → (∀ d ∈ more.head?, ¬ p d) → motive more →
      motive (w ++ more)) (s : List Char) : motive s := by
  induction hlen : s.length using Nat.strongRecOn generalizing s with
  | _ n ih =>
    rcases s with _ | ⟨c, s⟩
    · exact nil
    by_cases hc : p c
    · obtain ⟨w, more, hsplit, hne, hw, hmore⟩ := exists_run p hc s
      have hshort : more.length < n := by
        have := List.length_pos_of_ne_nil hne
        rw [← hlen, hsplit, List.length_append]
        omega
      rw [hsplit]
      exact run w more hne hw hmore (ih _ hshort more rfl)
    · have hshort : s.length < n := by rw [← hlen]; exact Nat.lt_succ_self _
      exact single c s hc (ih _ hshort s rfl)

lemma endsRun_of_head {more : List Char} (h : ∀ d ∈ more.head?, stringChar d ≠ [d]) :
    EndsRun (more.flatMap stringChar ++ '"' :: rest) := by
  rcases more with _ | ⟨d, more⟩
  · intro x hx
    obtain rfl : '"' = x := by simpa using hx
    decide
  · rcases stringChar_cases d with ⟨hd, -⟩ | ⟨e, hd, -⟩
    · exact absurd hd (h d rfl)
    · intro x hx
      obtain rfl : '\\' = x := by simpa [hd] using hx
      decide

lemma reads_parts (s : List Char) (tails : List String) (rest : List Char) :
    Reads ⟨"string", tails, s.flatMap stringChar ++ '"' :: rest⟩ (Parts s)
      ⟨"string", tails, '"' :: rest⟩ := by
  -- A run of plain characters is one token.
  induction s using induction_on_runs (fun d => stringChar d = [d]) with
  | nil => exact (Reads.refl _).mono fun ts hts => by rw [hts]; exact parts_nil
  | single c s hc ih =>
    rcases stringChar_cases c with ⟨hplain, -⟩ | ⟨e, hescape, he, hvalue⟩
    · exact absurd hplain hc
    · rw [List.flatMap_cons, hescape]
      refine ((reads_escape he tails _).append ih).mono ?_
      rintro ts ⟨us, vs, ⟨t, ht, htt, rfl⟩, hvs, rfl⟩
      exact parts_cons (.inr ht) (partText_escape ht htt hvalue) hvs
  | run w more hne hw hmore ih =>
    have hset : ∀ d ∈ w, insideSet.contains d = true := by
      intro d hd
      rcases stringChar_cases d with ⟨-, h⟩ | ⟨e, h, -⟩
      · exact h
      · rw [hw d hd] at h
        cases h
    have htext : w.flatMap stringChar = w := by
      rw [List.flatMap_congr hw, List.flatMap_singleton']
    rw [List.flatMap_append, htext, List.append_assoc]
    refine ((reads_run (k := 2) rfl rfl hne hset (endsRun_of_head hmore)).append ih).mono ?_
    rintro ts ⟨us, vs, ⟨t, ht, htt, rfl⟩, hvs, rfl⟩
    exact parts_cons (.inl ht) (partText_chars ht htt) hvs

/-! ### Keys -/

lemma contains_bareSet {c : Char} (h : isBareKeyChar c = true) : bareSet.contains c = true := by
  have halpha : c.isAlpha =
      (decide (65 ≤ c.val ∧ c.val ≤ 90) || (decide (97 ≤ c.val) && decide (c.val ≤ 122))) := rfl
  rw [CharSet.contains_low (by decide)]
  simp only [isBareKeyChar, Char.isAlphanum, halpha, Char.isDigit, Bool.or_eq_true,
    Bool.and_eq_true, decide_eq_true_eq, beq_iff_eq, UInt32.le_iff_toNat_le, ← Char.toNat_inj] at h
  simp only [bareSet, List.any_cons, List.any_nil, Bool.or_false, Bool.or_eq_true,
    Bool.and_eq_true, decide_eq_true_eq]
  have hnat : c.val.toNat = c.toNat := rfl
  simp only [hnat] at h
  have h' : ((((((65 ≤ c.toNat ∧ c.toNat ≤ 90) ∨ (97 ≤ c.toNat ∧ c.toNat ≤ 122)) ∨
      (48 ≤ c.toNat ∧ c.toNat ≤ 57)) ∨ c.toNat = 95) ∨ c.toNat = 36) ∨ c.toNat = 43) ∨
      c.toNat = 46 ∨ c.toNat = 45 := by
    tauto
  omega

/-- A low character that is neither a blank nor a slash begins no blank and no comment. -/
lemma refuses_spaceRules {c : Char} (hlow : c.toNat < 128)
    (hc : c ∉ ['\t', '\n', '\r', ' ', '/']) : refuses spaceRules (some c) = true :=
  forall_low (P := fun c => c ∉ ['\t', '\n', '\r', ' ', '/'] → refuses spaceRules (some c) = true)
    (by decide +kernel) hlow hc

lemma refuses_of_isBareKeyChar {c : Char} (h : isBareKeyChar c = true) :
    refuses spaceRules (some c) = true := by
  have hnone : ∀ d ∈ ['\t', '\n', '\r', ' ', '/'], isBareKeyChar d = false := by
    simp [isBareKeyChar]
  have hset := contains_bareSet h
  rw [CharSet.contains_low (by decide)] at hset
  simp only [bareSet, List.any_cons, List.any_nil, Bool.or_false, Bool.or_eq_true,
    Bool.and_eq_true, decide_eq_true_eq] at hset
  exact refuses_spaceRules (by omega) fun hc => by simp [hnone c hc] at h

lemma reads_bareKey {key : List Char} (hkey : isBareKey key = true)
    (hrest : ∀ c ∈ rest.head?, bareSet.contains c = false) :
    Reads ⟨"beforeKey", tails, key ++ rest⟩ (Single (.leaf .key) key)
      ⟨"afterKey", tails, rest⟩ := by
  simp only [isBareKey, Bool.and_eq_true, Bool.not_eq_true', List.isEmpty_eq_false_iff,
    List.all_eq_true] at hkey
  obtain ⟨hne, hall⟩ := hkey
  have hmem : ("beforeKey", _) ∈ ruleTable := List.mem_of_getElem? (i := 8) rfl
  have hpattern : (rule "[a-zA-Z0-9_$+/.\\-]+" (.leaf .key) (.const "afterKey")).ownPattern =
      bareKeyPattern := ownPattern_eq (k := 8) (i := 4) rfl rfl rfl rfl
  have hbefore : refuses spaceRules (key ++ rest).head? = true := by
    rcases key with _ | ⟨c, key⟩
    · exact absurd rfl hne
    · exact refuses_of_isBareKeyChar (hall c List.mem_cons_self)
  have hpicks : Picks _ 4 _ key rest :=
    picks_of_refuses hmem rfl hbefore fun run hrun => by
      rw [hpattern]
      refine leads_rep_set hrun (fun c hc => contains_bareSet (hall c hc))
        (List.length_pos_of_ne_nil hne) (by simp) (.inr ?_)
      rcases rest with _ | ⟨c, cs⟩
      · rfl
      · exact hrest c rfl
  exact hpicks.reads_plain hmem (by decide)

/-- A turn of the loop in a quoted key takes one character as it was written. -/
lemma leads_keyChar (c : Char) {run : Run} (h : run.place.rest = keyChar c ++ rest) :
    (oneOrTwo insideSet (.char '\\') .any).Leads run (keyChar c).length := by
  have hany : CharSet.any.contains c = true := by
    simp only [CharSet.contains, CharSet.has, CharSet.any, List.any_cons, List.any_nil,
      Bool.or_false, Nat.zero_le, decide_true, Bool.true_and, decide_eq_true_eq]
    exact CharSet.rank_le_lastRank c
  unfold keyChar at h ⊢
  split_ifs at h ⊢ with hc
  · have hopens : (Pattern.set insideSet).opens (some '\\') = false := by decide
    have hfirst : (Pattern.set insideSet).ways run = [] :=
      ways_eq_nil_of_opens (by rw [h]; exact hopens)
    have hslash : (Pattern.set (.char '\\')).Leads run 1 :=
      leads_set h ((CharSet.contains_char (by decide)).2 rfl)
    have hrest : (run.ahead 1).place.rest = c :: rest := by
      rw [Run.rest_ahead, h]
      rfl
    exact Leads.alt_right hfirst (hslash.seq (leads_set hrest hany))
  · exact (leads_set h (contains_insideSet.2 (by simpa using hc))).alt_left _

lemma chain_keyChars (key : List Char) {run : Run}
    (h : run.place.rest = key.flatMap keyChar ++ rest) :
    (oneOrTwo insideSet (.char '\\') .any).Chain run (key.map fun c => (keyChar c).length) := by
  induction key generalizing run with
  | nil => exact trivial
  | cons c key ih =>
    rw [List.flatMap_cons, List.append_assoc] at h
    refine ⟨leads_keyChar c h, ih ?_⟩
    rw [Run.rest_ahead, h, List.drop_left]

lemma sum_keyChars (key : List Char) :
    (key.map fun c => (keyChar c).length).sum = (key.flatMap keyChar).length := by
  rw [List.length_flatMap]

lemma length_keyChar (c : Char) : 0 < (keyChar c).length := by
  unfold keyChar
  split_ifs <;> simp

lemma leads_quoted (key : List Char) {run : Run}
    (h : run.place.rest = '"' :: key.flatMap keyChar ++ '"' :: rest) :
    quotedPattern.Leads run ('"' :: key.flatMap keyChar ++ ['"']).length := by
  have hquote : (CharSet.char '"').contains '"' = true := (CharSet.contains_char (by decide)).2 rfl
  have hinside : (run.ahead 1).place.rest = key.flatMap keyChar ++ '"' :: rest := by
    rw [Run.rest_ahead, h]
    rfl
  have hend : ((run.ahead 1).ahead (key.flatMap keyChar).length).place.rest = '"' :: rest := by
    rw [Run.rest_ahead, hinside, List.drop_left]
  have hopens : (oneOrTwo insideSet (.char '\\') .any).opens (some '"') = false := by decide
  have hloop : (rep (oneOrTwo insideSet (.char '\\') .any) 0 none true).Leads (run.ahead 1)
      (key.flatMap keyChar).length := by
    rw [← sum_keyChars] at hend ⊢
    refine (chain_keyChars key hinside).leads_rep (Nat.zero_le _) (by simp) ?_ (.inr ?_)
    · intro n hn
      obtain ⟨c, -, rfl⟩ := List.mem_map.1 hn
      exact length_keyChar c
    · exact ways_eq_nil_of_opens (by rw [hend]; exact hopens)
  have hlength : ('"' :: key.flatMap keyChar ++ ['"']).length =
      1 + ((key.flatMap keyChar).length + 1) := by
    simp
    omega
  rw [hlength]
  exact (leads_set h hquote).seq (hloop.seq (leads_set hend hquote))

lemma reads_quotedKey (key : List Char) (tails : List String) (rest : List Char) :
    Reads ⟨"beforeKey", tails, '"' :: key.flatMap keyChar ++ ['"'] ++ rest⟩
      (Single (.leaf .key) ('"' :: key.flatMap keyChar ++ ['"'])) ⟨"afterKey", tails, rest⟩ := by
  have hmem : ("beforeKey", _) ∈ ruleTable := List.mem_of_getElem? (i := 8) rfl
  have hbefore : refuses (spaceRules ++
      [rule "[a-zA-Z0-9_$+/.\\-]+" (.leaf .key) (.const "afterKey")]) (some '"') = true := by
    decide +kernel
  have hpattern :
      (lineRule "\"(?:[^\"\\\\]|\\\\.)*\"" (.leaf .key) (.const "afterKey")).ownPattern =
      quotedPattern := ownPattern_eq (k := 8) (i := 5) rfl rfl rfl rfl
  have hpicks : Picks _ 5 _ ('"' :: key.flatMap keyChar ++ ['"']) rest :=
    picks_of_refuses hmem rfl hbefore fun run hrun => by
      rw [hpattern]
      exact leads_quoted key (by simpa using hrun)
  exact hpicks.reads_plain hmem (by decide)

lemma unescapeKey_keyChar (c : Char) (cs : List Char) :
    unescapeKey (keyChar c ++ cs) = c :: unescapeKey cs := by
  unfold keyChar
  split_ifs with hc
  · rcases hc with rfl | rfl <;> rcases cs with _ | ⟨d, cs⟩ <;> rfl
  · have hslash : c ≠ '\\' := fun h => hc (.inr h)
    show unescapeKey (c :: cs) = _
    rw [unescapeKey] <;> simp [hslash]

lemma unescapeKey_flatMap (key : List Char) : unescapeKey (key.flatMap keyChar) = key := by
  induction key with
  | nil => rfl
  | cons c key ih => rw [List.flatMap_cons, unescapeKey_keyChar, ih]

lemma keyName_keyText (key : String) : keyName (String.ofList (keyText key.toList)) = key := by
  unfold keyName keyText
  rw [String.toList_ofList]
  split_ifs with hbare
  · have hnone : unquote? key.toList = none := by
      simp only [isBareKey, Bool.and_eq_true, List.all_eq_true] at hbare
      unfold unquote?
      split
      · rename_i cs hcs
        have := hbare.2 '"' (by rw [hcs]; exact List.mem_cons_self)
        exact absurd this (by decide)
      · rfl
    rw [hnone, String.ofList_toList]
  · have hinside : unquote? ('"' :: key.toList.flatMap keyChar ++ ['"']) =
        some (key.toList.flatMap keyChar) := by
      simp [unquote?]
    rw [hinside]
    show String.ofList (unescapeKey _) = key
    rw [unescapeKey_flatMap, String.ofList_toList]

lemma reads_key (key : List Char) (tails : List String) (rest : List Char) :
    Reads ⟨"beforeKey", tails, keyText key ++ ' ' :: rest⟩ (Single (.leaf .key) (keyText key))
      ⟨"afterKey", tails, ' ' :: rest⟩ := by
  unfold keyText
  split_ifs with hbare
  · refine reads_bareKey hbare fun c hc => ?_
    obtain rfl : ' ' = c := by simpa using hc
    decide
  · exact reads_quotedKey key tails (' ' :: rest)

/-! ### Data blocks -/

def isChunk (w : List Char) : Bool := w.all isHexDigit && 1 ≤ w.length && w.length ≤ 8

lemma isChunk_iff {w : List Char} : isChunk w = true ↔
    (∀ c ∈ w, isHexDigit c = true) ∧ 1 ≤ w.length ∧ w.length ≤ 8 := by
  simp [isChunk, and_assoc]

def Chunks (chunks : List String) (ts : List (Token Tag)) : Prop :=
  ∃ cs : List (Marked (.leaf .data)), cs.map Subtype.val = ts ∧
    (cs.map fun t => t.1.text) = chunks

lemma refuses_of_isHexDigit {c : Char} (h : isHexDigit c = true) :
    refuses spaceRules (some c) = true := by
  have hnone : ∀ d ∈ ['\t', '\n', '\r', ' ', '/'], isHexDigit d = false := by simp [isHexDigit]
  exact refuses_spaceRules (low_of_isHexDigit h) fun hc => by simp [hnone c hc] at h

lemma reads_chunk {w : List Char} (hw : isChunk w = true)
    (hrest : ∀ c ∈ rest.head?, isHexDigit c = false) :
    Reads ⟨"data", tails, w ++ rest⟩ (Single (.leaf .data) w) ⟨"data", tails, rest⟩ := by
  obtain ⟨hdigits, hmin, hmax⟩ := isChunk_iff.1 hw
  have hmem : ("data", _) ∈ ruleTable := List.mem_of_getElem? (i := 1) rfl
  have hpattern : (rule "[0-9a-fA-F]\x7b1,8\x7d" (.leaf .data) .stay).ownPattern =
      chunkPattern := ownPattern_eq (k := 1) (i := 4) rfl rfl rfl rfl
  have hbefore : refuses spaceRules (w ++ rest).head? = true := by
    rcases w with _ | ⟨c, w⟩
    · simp at hmin
    · exact refuses_of_isHexDigit (hdigits c List.mem_cons_self)
  have hpicks : Picks _ 4 _ w rest :=
    picks_of_refuses hmem rfl hbefore fun run hrun => by
      rw [hpattern]
      refine leads_rep_set hrun (fun c hc => by rw [contains_hexSet]; exact hdigits c hc) hmin
        (by simpa using hmax) (.inr ?_)
      rcases rest with _ | ⟨c, cs⟩
      · rfl
      · rw [List.head?_cons, Option.any_some, contains_hexSet]
        exact hrest c rfl
  exact hpicks.reads_plain hmem (by decide)

lemma chunks_cons {t : Token Tag} {chunk : String} (ht : t.tag = .leaf .data)
    (htext : t.text = String.ofList chunk.toList) {chunks : List String} {ts : List (Token Tag)}
    (h : Chunks chunks ts) : Chunks (chunk :: chunks) (t :: ts) := by
  obtain ⟨cs, rfl, rfl⟩ := h
  exact ⟨⟨t, ht⟩ :: cs, rfl, by simp [htext, String.ofList_toList]⟩

lemma solid_dataText {chunk : String} (h : isChunk chunk.toList = true) (chunks : List String)
    (rest : List Char) : Solid (dataText (chunk :: chunks) ++ rest) := by
  obtain ⟨hdigits, hmin, -⟩ := isChunk_iff.1 h
  obtain ⟨c, w, hw⟩ := List.exists_cons_of_length_pos hmin
  have htext : ∃ more, dataText (chunk :: chunks) = c :: more := by
    rcases chunks with _ | ⟨next, chunks⟩ <;> simp [dataText, hw]
  obtain ⟨more, hmore⟩ := htext
  rw [hmore]
  have hc := hdigits c (by rw [hw]; exact List.mem_cons_self)
  refine solid_cons (Bool.eq_false_iff.2 fun hblank => ?_) _
  rcases contains_blankSet.1 hblank with rfl | rfl | rfl <;> exact absurd hc (by decide)

lemma reads_chunks {chunks : List String} (h : ∀ chunk ∈ chunks, isChunk chunk.toList = true) :
    Reads ⟨"data", tails, dataText chunks ++ '>' :: rest⟩ (Chunks chunks)
      ⟨"data", tails, '>' :: rest⟩ := by
  have hmem : ("data", spaceRules ++ _) ∈ ruleTable := List.mem_of_getElem? (i := 1) rfl
  have hnil : Chunks [] [] := ⟨[], rfl, rfl⟩
  induction chunks with
  | nil => exact (Reads.refl _).mono fun ts hts => by rw [hts]; exact hnil
  | cons chunk chunks ih =>
    have hchunk := h chunk List.mem_cons_self
    rcases chunks with _ | ⟨next, chunks⟩
    · refine (reads_chunk hchunk fun c hc => ?_).mono ?_
      · obtain rfl : '>' = c := by simpa using hc
        decide
      · rintro ts ⟨t, ht, htext, rfl⟩
        exact chunks_cons ht htext hnil
    · have ih := ih fun x hx => h x (List.mem_cons_of_mem _ hx)
      have htext : dataText (chunk :: next :: chunks) ++ '>' :: rest =
          chunk.toList ++ ' ' :: (dataText (next :: chunks) ++ '>' :: rest) := by
        simp [dataText]
      have hsolid := solid_dataText (h next (by simp)) chunks ('>' :: rest)
      rw [htext]
      refine ((reads_chunk hchunk fun c hc => ?_).append
        ((reads_space hmem hsolid).after_blank ih)).mono ?_
      · obtain rfl : ' ' = c := by simpa using hc
        decide
      · rintro ts ⟨us, vs, ⟨t, ht, htt, rfl⟩, hvs, rfl⟩
        exact chunks_cons ht htt hvs

end ScanTree.PropertyList
