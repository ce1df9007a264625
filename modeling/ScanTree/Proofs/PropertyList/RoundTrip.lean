import ScanTree.Proofs.PropertyList.Acceptance
import ScanTree.Proofs.PropertyList.Written

/-!
Values read back from their texts.

The proof goes along a value. In front of each part stands the state that the scan has come to, and
the text after it begins with a bracket, a separator or a line feed.
-/

namespace ScanTree.PropertyList

open Value

variable {q : String} {tails : List String} {rest : List Char}

/-! ### First characters -/

lemma mem_valueFirsts_digit {c : Char} (h : c.isDigit = true) : c ∈ valueFirsts :=
  forall_digit (by decide) h

lemma head_number {s ds : List Char} (hs : s = [] ∨ s = ['-']) (hds : RealText.AllDigits ds)
    (hne : ds ≠ []) (more : List Char) :
    ∃ c cs, s ++ (ds ++ more) = c :: cs ∧ c ∈ valueFirsts := by
  obtain ⟨d, ds, rfl⟩ := List.exists_cons_of_ne_nil hne
  rcases hs with rfl | rfl
  · exact ⟨d, ds ++ more, rfl, mem_valueFirsts_digit (hds d List.mem_cons_self)⟩
  · exact ⟨'-', d :: ds ++ more, rfl, by decide⟩

lemma head_render {v : Value} (h : v.WellFormed) (depth : Option Nat) :
    ∃ c cs, v.render depth = c :: cs ∧ c ∈ valueFirsts := by
  cases v with
  | dict entries =>
    rcases entries with _ | ⟨e, entries⟩
    · exact ⟨'\x7b', _, by rw [render], by decide⟩
    · exact ⟨'\x7b', _, by simp only [render, List.cons_append]; rfl, by decide⟩
  | array items =>
    rcases items with _ | ⟨v, items⟩
    · exact ⟨'(', _, by rw [render], by decide⟩
    · cases depth <;> exact ⟨'(', _, by simp only [render, List.cons_append]; rfl, by decide⟩
  | string s => exact ⟨'"', _, by rw [render, stringText]; rfl, by decide⟩
  | integer n =>
    obtain ⟨s, hs, hwrite⟩ := Integer.write_eq n
    have hds : RealText.AllDigits (Nat.toDigits 10 n.toInt.natAbs) := Integer.isDigit_toDigits
    have hhead := head_number hs hds Nat.toDigits_ne_nil []
    rwa [List.append_nil, ← hwrite] at hhead
  | real x =>
    rcases x with _ | negative | ⟨negative, rank⟩
    · exact ⟨'N', _, by rw [render, realText]; rfl, by decide⟩
    · cases negative
      · exact ⟨'i', _, by rw [render, realText]; rfl, by decide⟩
      · exact ⟨'-', _, by rw [render, realText]; rfl, by decide⟩
    · obtain ⟨s, ds, es, hs, hds, hne, -, -, htext, -⟩ :=
        RealFormat.read_finite realFormat (fun _ => rfl) negative rank
      rw [render, realText, htext]
      exact head_number hs hds hne _
  | boolean b => cases b <;> exact ⟨':', _, by rw [render]; rfl, by decide⟩
  | date text =>
    obtain ⟨cs, hcs⟩ := head?_of_isDate h
    exact ⟨'@', cs, by rw [render, hcs], by decide⟩
  | data chunks => exact ⟨'<', _, by rw [render]; rfl, by decide⟩

lemma solid_render {v : Value} (h : v.WellFormed) (depth : Option Nat) (rest : List Char) :
    Solid (v.render depth ++ rest) := by
  obtain ⟨c, cs, hc, hmem⟩ := head_render h depth
  rw [hc]
  exact solid_of_mem hmem _

lemma solid_keyText (key rest : List Char) : Solid (keyText key ++ rest) := by
  unfold keyText
  split_ifs with hbare
  · simp only [isBareKey, Bool.and_eq_true, Bool.not_eq_true', List.isEmpty_eq_false_iff,
      List.all_eq_true] at hbare
    obtain ⟨c, key, rfl⟩ := List.exists_cons_of_ne_nil hbare.1
    have hc := hbare.2 c List.mem_cons_self
    refine solid_cons (Bool.eq_false_iff.2 fun hblank => ?_) _
    rcases contains_blankSet.1 hblank with rfl | rfl | rfl <;> exact absurd hc (by decide)
  · exact solid_cons (by decide) _

/-! ### Parts of values -/

lemma mem_element (hq : q = "arrayHead" ∨ q = "afterComma") :
    (q, spaceRules ++ elementRules) ∈ ruleTable := by
  rcases hq with rfl | rfl
  · exact List.mem_of_getElem? (i := 4) rfl
  · exact List.mem_of_getElem? (i := 6) rfl

lemma reads_toElement {v : Value} (h : v.WellFormed) (hq : q = "arrayHead" ∨ q = "afterComma")
    (depth : Option Nat) (tails : List String) (rest : List Char) :
    Reads ⟨q, tails, v.render depth ++ rest⟩ Nothing ⟨"main", tails, v.render depth ++ rest⟩ := by
  obtain ⟨c, cs, hc, hmem⟩ := head_render h depth
  rw [hc]
  exact reads_element hq hmem _

lemma reads_toValue {v : Value} (h : v.WellFormed) (key : List Char) (depth depth' : Option Nat)
    (tails : List String) (rest : List Char) :
    Reads ⟨"beforeKey", tails, lineBreak depth ++ (keyText key ++ ' ' :: '=' :: ' ' ::
        (v.render depth' ++ rest))⟩
      (Both (Single (.leaf .key) (keyText key)) (Single (.skip .equals) ['=']))
      ⟨"main", tails, v.render depth' ++ rest⟩ := by
  have hbefore : ("beforeKey", spaceRules ++ _) ∈ ruleTable := List.mem_of_getElem? (i := 8) rfl
  have hafter : ("afterKey", spaceRules ++ _) ∈ ruleTable := List.mem_of_getElem? (i := 9) rfl
  have hequals : Solid ('=' :: ' ' :: (v.render depth' ++ rest)) := solid_cons (by decide) _
  exact (reads_lineBreak hbefore (solid_keyText key _) depth).after_blank
    ((reads_key key tails _).append ((reads_space hafter hequals).after_blank
      ((reads_equals tails _).before_blank (reads_space mem_main (solid_render h depth' rest)))))

mutual

/-- **A value reads back** where all its reals are finite. Elsewhere the scan gets stuck in it. -/
theorem readsIf_value : (v : Value) → v.WellFormed → (depth : Option Nat) → (tails : List String) →
    (rest : List Char) → Delimited rest →
    ReadsIf v.allFinite ⟨"main", tails, v.render depth ++ rest⟩ (Means v) ⟨after tails, tails, rest⟩
  | .dict [], h, depth, tails, rest, _ => by
    rw [render]
    exact ((reads_openDict tails _).append
      (((Reads.refl _).mono fun ts hts => by rw [hts]; exact meansEntries_nil).append
        (reads_closeDict (.inl rfl) tails rest))).mono fun ts hts => means_dict_of_nodup h.1 hts
  | .dict (e :: entries), h, depth, tails, rest, _ => by
    have htext : (dict (e :: entries)).render depth ++ rest =
        '\x7b' :: (renderEntries (depth.map (· + 1)) (e :: entries) ++
          (lineBreak depth ++ '\x7d' :: rest)) := by
      simp [render]
    have hmem : ("beforeKey", spaceRules ++ _) ∈ ruleTable := List.mem_of_getElem? (i := 8) rfl
    have hsolid : Solid ('\x7d' :: rest) := solid_cons (by decide) _
    rw [htext]
    exact ((reads_openDict tails _).append_if
      ((readsIf_entries (e :: entries) h.2 _ tails _).append_reads
        ((reads_lineBreak hmem hsolid depth).after_blank
          (reads_closeDict (.inl rfl) tails rest)))).mono
          fun ts hts => means_dict_of_nodup h.1 hts
  | .array [], _, depth, tails, rest, _ => by
    rw [render]
    exact ((reads_openArray tails _).append
      (((Reads.refl _).mono fun ts hts => by rw [hts]; exact meansItems_nil).append
        (reads_closeArray (.inl rfl) tails rest))).mono fun ts hts => means_array hts
  | .array (v :: items), h, none, tails, rest, _ => by
    have htext : (array (v :: items)).render none ++ rest =
        '(' :: (renderItems (v :: items) ++ ')' :: rest) := by
      simp [render]
    rw [htext]
    exact ((reads_openArray tails _).append_if
      ((readsIf_items (v :: items) (by simp) h "arrayHead" (.inl rfl) tails rest).append_reads
        (reads_closeArray (.inr (.inl rfl)) tails rest))).mono fun ts hts => means_array hts
  | .array (v :: items), h, some depth, tails, rest, _ => by
    have htext : (array (v :: items)).render (some depth) ++ rest =
        '(' :: (renderLines (depth + 1) (v :: items) ++
          (lineBreak (some depth) ++ ')' :: rest)) := by
      simp [render]
    obtain ⟨q, hq, hitems⟩ := readsIf_lines (v :: items) h (depth + 1) "arrayHead" (.inl rfl) tails
      (lineBreak (some depth) ++ ')' :: rest)
    have hsolid : Solid (')' :: rest) := solid_cons (by decide) _
    rw [htext]
    exact ((reads_openArray tails _).append_if (hitems.append_reads
      ((reads_lineBreak (mem_element hq) hsolid (some depth)).after_blank
        (reads_closeArray (by tauto) tails rest)))).mono fun ts hts => means_array hts
  | .string s, _, depth, tails, rest, _ => by
    rw [render]
    exact reads_string s tails rest
  | .integer n, _, depth, tails, rest, hrest => by
    rw [render]
    exact reads_integer n tails hrest
  | .real x, _, depth, tails, rest, hrest => by
    rw [render, allFinite]
    cases hx : x.isFinite with
    | true => exact reads_real hx tails hrest
    | false => exact halts_of_stuck (stuck_realText hx rest) tails
  | .boolean b, _, depth, tails, rest, hrest => by
    rw [render]
    exact reads_bool b tails hrest
  | .date text, h, depth, tails, rest, _ => by
    rw [render]
    exact reads_dateText h tails rest
  | .data chunks, h, depth, tails, rest, _ => by
    rw [render]
    exact reads_data h tails rest

theorem readsIf_entries : (entries : List (String × Value)) → WellFormedEntries entries →
    (depth : Option Nat) → (tails : List String) → (rest : List Char) →
    ReadsIf (finiteEntries entries)
      ⟨"beforeKey", "dictTail" :: tails, renderEntries depth entries ++ rest⟩
      (MeansEntries entries) ⟨"beforeKey", "dictTail" :: tails, rest⟩
  | [], _, depth, tails, rest =>
    (Reads.refl _).mono fun ts hts => by rw [hts]; exact meansEntries_nil
  | (key, v) :: entries, h, depth, tails, rest => by
    have htext : renderEntries depth ((key, v) :: entries) ++ rest =
        lineBreak depth ++ (keyText key.toList ++ ' ' :: '=' :: ' ' ::
          (v.render depth ++ ';' :: (renderEntries depth entries ++ rest))) := by
      simp [renderEntries]
    rw [htext]
    refine ((reads_toValue h.1 key.toList depth depth _ _).append_if
      ((readsIf_value v h.1 depth _ _ (delimited_cons (by decide) _)).append
        ((reads_semicolon _ _).append_if (readsIf_entries entries h.2 depth tails rest)))).mono ?_
    rintro ts ⟨us, vs, ⟨k, e, hk, he, rfl⟩, hvs, rfl⟩
    exact meansEntries_cons ⟨k, e ++ vs, hk, ⟨e, vs, he, hvs, rfl⟩, List.append_assoc k e vs⟩

/-- Elements on lines of their own, up to the last comma. -/
theorem readsIf_lines : (items : List Value) → WellFormedItems items → (depth : Nat) →
    (q : String) → (q = "arrayHead" ∨ q = "afterComma") → (tails : List String) →
    (rest : List Char) → ∃ q', (q' = "arrayHead" ∨ q' = "afterComma") ∧
      ReadsIf (finiteItems items) ⟨q, "arrayTail" :: tails, renderLines depth items ++ rest⟩
        (MeansItems items) ⟨q', "arrayTail" :: tails, rest⟩
  | [], _, depth, q, hq, tails, rest =>
    ⟨q, hq, (Reads.refl _).mono fun ts hts => by rw [hts]; exact meansItems_nil⟩
  | v :: items, h, depth, q, hq, tails, rest => by
    have htext : renderLines depth (v :: items) ++ rest =
        lineBreak (some depth) ++ (v.render (some depth) ++
          ',' :: (renderLines depth items ++ rest)) := by
      simp [renderLines]
    obtain ⟨q', hq', hitems⟩ := readsIf_lines items h.2 depth "afterComma" (.inr rfl) tails rest
    refine ⟨q', hq', ?_⟩
    rw [htext]
    exact ((reads_lineBreak (mem_element hq) (solid_render h.1 _ _) _).after_blank
      (reads_toElement h.1 hq _ _ _)).blank_if
        (((readsIf_value v h.1 _ _ _ (delimited_cons (by decide) _)).append
          ((reads_comma _ _).append_if hitems)).mono fun ts hts => meansItems_cons hts)

/-- Elements on one line, up to the closing bracket. -/
theorem readsIf_items : (items : List Value) → items ≠ [] → WellFormedItems items →
    (q : String) → (q = "arrayHead" ∨ q = "afterComma") → (tails : List String) →
    (rest : List Char) →
    ReadsIf (finiteItems items) ⟨q, "arrayTail" :: tails, renderItems items ++ ')' :: rest⟩
      (MeansItems items) ⟨"arrayTail", "arrayTail" :: tails, ')' :: rest⟩
  | [], hne, _, _, _, _, _ => absurd rfl hne
  | [v], _, h, q, hq, tails, rest => by
    rw [finiteItems, finiteItems, Bool.and_true, renderItems]
    exact (reads_toElement h.1 hq _ _ _).blank_if
      ((readsIf_value v h.1 none _ _ (delimited_cons (by decide) _)).mono
        fun ts hts => meansItems_last hts)
  | v :: w :: items, _, h, q, hq, tails, rest => by
    have htext : renderItems (v :: w :: items) ++ ')' :: rest =
        v.render none ++ ',' :: ' ' :: (renderItems (w :: items) ++ ')' :: rest) := by
      simp [renderItems]
    have hsolid : Solid (renderItems (w :: items) ++ ')' :: rest) := by
      rcases items with _ | ⟨u, items⟩
      · rw [renderItems]
        exact solid_render h.2.1 none _
      · simp only [renderItems, List.append_assoc]
        exact solid_render h.2.1 none _
    rw [htext]
    exact (reads_toElement h.1 hq _ _ _).blank_if
      (((readsIf_value v h.1 none _ _ (delimited_cons (by decide) _)).append
        ((reads_comma _ _).append_if ((reads_space (mem_element (.inr rfl)) hsolid).blank_if
          (readsIf_items (w :: items) (by simp) h.2 "afterComma" (.inr rfl) tails rest)))).mono
            fun ts hts => meansItems_cons hts)

end

/-! ### Whole texts -/

lemma stands_scan (input : String) (excerptLength : Nat) :
    Stands (scan input excerptLength) ⟨"main", [], input.toList⟩ :=
  ⟨_, at_scan input excerptLength, rfl⟩

lemma next_of_end {s : Scan Tag Nesting} (h : Stands s ⟨"end", [], []⟩) :
    ∃ s' log, s.next = (.ended, s', log) := by
  obtain ⟨place, hat, hplace⟩ := h
  have hplace : place.rest = [] := hplace
  have hmem : ("end", spaceRules) ∈ ruleTable := List.mem_of_getElem? (i := 10) rfl
  have hrefuses : refuses spaceRules none = true := by decide +kernel
  have hplain := fun r hr => State.isPlain_of_mem (isRegular_ruleTable _ hmem) (r := r) hr
  have hnext := hat.next_eq hmem
  rw [pick?_eq_none (match?_of_refuses hplain (by rw [hplace]; exact hrefuses))] at hnext
  simp only [Scan.unmatched, hplace, List.isEmpty_nil, if_true] at hnext
  exact ⟨_, _, hnext⟩

lemma next_of_stuck {s : Scan Tag Nesting} {text : List Char} (h : Stands s ⟨"main", tails, text⟩)
    (hstuck : Stuck text) :
    ∃ position excerpt s' log, s.next = (.error (.noMatch position "main" excerpt), s', log) := by
  obtain ⟨place, hat, hplace⟩ := h
  have hplace : place.rest = text := hplace
  have hnext := hat.next_eq mem_main
  have hempty : place.rest.isEmpty = false := by simpa [hplace] using hstuck.1
  rw [hstuck.2 place hplace] at hnext
  simp only [Scan.unmatched, hempty, hat.state] at hnext
  exact ⟨_, _, _, _, hnext⟩

/-- A text whose scan reads on to the end as a value has that value. -/
lemma parse_of_reads {input : String} {v : Value}
    (h : Reads ⟨"main", [], input.toList⟩ (Means v) ⟨"end", [], []⟩) : parse input = .ok v := by
  obtain ⟨es, s, hpulls, ⟨p, hp, hv⟩, -, hs⟩ := h _ (stands_scan input (Options.excerptLength {}))
  obtain ⟨s', log, hn⟩ := next_of_end hs
  have htokens := tokens_eq hpulls hn rfl
  exact parseWith_of_phrase (by rw [htokens]; exact hp) hv (by rw [htokens])

lemma parse_of_halts {input : String} (h : Halts ⟨"main", [], input.toList⟩) :
    ∃ location source, parse input = .error (.noRule location "main" source) := by
  obtain ⟨es, s, tails, text, hpulls, hfit, hs, hstuck⟩ :=
    h _ (stands_scan input (Options.excerptLength {}))
  obtain ⟨position, excerpt, s', log, hn⟩ := next_of_stuck hs hstuck
  have htokens := tokens_eq hpulls hn rfl
  have hat := at_scan input (Options.excerptLength {})
  have hparse := parseWith_eq {} input
  rw [htokens] at hparse
  rcases feed_of_pulls hat (sound_start {}) hpulls input with
    ⟨b, -, -, -, hfeed, -⟩ | ⟨-, e, -, entry, hentry, kind, htag, hitem⟩
  · rw [hfeed] at hparse
    exact ⟨_, _, hparse⟩
  · -- A leaf that is refused would be an integer that does not fit.
    have hmem : entry.token ∈ skeleton es := by
      have hblank : isBlankToken entry.token = false := by
        simp [isBlankToken, htag, Tag.leaf, Tag.skip]
      exact List.mem_filter.2 ⟨List.mem_map_of_mem hentry, by rw [hblank]; rfl⟩
    have hspelled := spelled_of_pulls hat hpulls entry hentry kind htag
    obtain ⟨item, hok⟩ := (leafItem_iff htag hspelled).2 (hfit _ hmem)
    rw [hitem] at hok
    cases hok

lemma readsIf_inline {v : Value} (h : v.WellFormed) :
    ReadsIf v.allFinite ⟨"main", [], v.inline.toList⟩ (Means v) ⟨"end", [], []⟩ := by
  have hrest : Delimited [] := by simp [Delimited]
  have hread := readsIf_value v h none [] [] hrest
  rwa [List.append_nil, ← String.toList_ofList (l := v.render none)] at hread

lemma readsIf_indented {v : Value} (h : v.WellFormed) :
    ReadsIf v.allFinite ⟨"main", [], v.indented.toList⟩ (Means v) ⟨"end", [], []⟩ := by
  have hmem : ("end", spaceRules ++ []) ∈ ruleTable := List.mem_of_getElem? (i := 10) rfl
  have hline : Reads ⟨"end", [], ['\n']⟩ Nothing ⟨"end", [], []⟩ := reads_newline hmem (by simp)
  have hread := (readsIf_value v h (some 0) [] ['\n'] (delimited_cons (by decide) [])).append_reads
    hline
  rw [← String.toList_ofList (l := v.render (some 0) ++ ['\n'])] at hread
  refine hread.mono fun ts ⟨us, vs, hus, hvs, hts⟩ => ?_
  rw [hts, hvs, List.append_nil]
  exact hus

/-- **Round trip**: a value in which all reals are finite is read back from either of its texts, and
the texts of other values are refused where a value should begin. -/
theorem parse_render {v : Value} (h : v.WellFormed) :
    (v.allFinite = true → parse v.inline = .ok v ∧ parse v.indented = .ok v) ∧
    (v.allFinite = false →
      (∃ location source, parse v.inline = .error (.noRule location "main" source)) ∧
      ∃ location source, parse v.indented = .error (.noRule location "main" source)) := by
  have hinline := readsIf_inline h
  have hindented := readsIf_indented h
  refine ⟨fun hfinite => ?_, fun hfinite => ?_⟩
  · rw [hfinite] at hinline hindented
    exact ⟨parse_of_reads hinline, parse_of_reads hindented⟩
  · rw [hfinite] at hinline hindented
    exact ⟨parse_of_halts hinline, parse_of_halts hindented⟩

/-- A dict with an empty key and a key in quotes, and a real that is none. -/
theorem parse_render_dict :
    (parse (inline (dict [("", date "@2001-02-03 04:05:06 +0000"), ("a/b", data ["0F", "1"])])) =
      .ok (dict [("", date "@2001-02-03 04:05:06 +0000"), ("a/b", data ["0F", "1"])])) ∧
    ∃ location source, parse (indented (array [integer 1, real .nan])) =
      .error (.noRule location "main" source) := by
  have hdate : isDate "@2001-02-03 04:05:06 +0000".toList = true := by decide +kernel
  have hdata : ∀ chunk ∈ ["0F", "1"], isChunk chunk.toList = true := by decide
  have hdict : (dict [("", date "@2001-02-03 04:05:06 +0000"),
      ("a/b", data ["0F", "1"])]).WellFormed :=
    And.intro (by decide) ⟨hdate, hdata, trivial⟩
  have harray : (array [integer 1, real .nan]).WellFormed := And.intro trivial ⟨trivial, trivial⟩
  exact ⟨((parse_render hdict).1 rfl).1, ((parse_render harray).2 rfl).2⟩

end ScanTree.PropertyList
