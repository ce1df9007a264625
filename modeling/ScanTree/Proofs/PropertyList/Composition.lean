import ScanTree.Proofs.PropertyList.Embedding

/-!
Arrays and dicts that are put together from texts which are read alone.

A separator stands on a new line, so that a comment at the end of a text does not take it in. One
separator may come after the last text, and no comma may come where a value should.
-/

namespace ScanTree.PropertyList

open Value

variable {q : String} {tails : List String} {ts : List (Token Tag)} {v : Value} {key : String}
  {items : List Value} {entries : List (String × Value)} {rest : List Char}

/-! ### Elements -/

/-- The tokens of elements, with or without one more comma. -/
def MeansRow (items : List Value) (ts : List (Token Tag)) : Prop :=
  MeansItems items ts ∧ ∀ comma : Comma, MeansItems items (ts ++ [comma.1])

lemma meansRow_last (h : Means v ts) : MeansRow [v] ts := by
  obtain ⟨p, rfl, hp⟩ := h
  exact ⟨⟨.last p, rfl, by rw [Elements.values, hp]; rfl⟩,
    fun comma => ⟨.cons p comma .nil, rfl, by rw [Elements.values, hp]; rfl⟩⟩

lemma meansRow_cons
    (h : Both (Means v) (Both (Single (.skip .separator) [',']) (MeansRow items)) ts) :
    MeansRow (v :: items) ts := by
  obtain ⟨us, _, hus, ⟨cs, ws, hcs, ⟨hrow, hmore⟩, rfl⟩, rfl⟩ := h
  refine ⟨meansItems_cons ⟨us, _, hus, ⟨cs, ws, hcs, hrow, rfl⟩, rfl⟩, fun comma => ?_⟩
  rw [List.append_assoc, List.append_assoc]
  exact meansItems_cons ⟨us, _, hus, ⟨cs, _, hcs, hmore comma, rfl⟩, rfl⟩

lemma reads_newline_array (h : rest.head? ≠ some '\r') :
    Reads ⟨"arrayTail", tails, '\n' :: rest⟩ Nothing ⟨"arrayTail", tails, rest⟩ :=
  reads_newline (List.mem_of_getElem? (i := 5) rfl) h

lemma reads_newline_dict (h : rest.head? ≠ some '\r') :
    Reads ⟨"dictTail", tails, '\n' :: rest⟩ Nothing ⟨"dictTail", tails, rest⟩ :=
  reads_newline (List.mem_of_getElem? (i := 7) rfl) h

/-- **Rows**: texts that are read alone are read as the elements of an array. -/
theorem reads_row {texts : List (List Char)} (h : List.Forall₂ ReadsAlone texts items)
    (hne : texts ≠ []) (hq : q = "arrayHead" ∨ q = "afterComma") (hknown : Known tails)
    (rest : List Char) :
    Reads ⟨q, "arrayTail" :: tails, ['\n', ','].intercalate texts ++ '\n' :: rest⟩ (MeansRow items)
      ⟨"arrayTail", "arrayTail" :: tails, '\n' :: rest⟩ := by
  have hknown' := known_array hknown
  induction h generalizing q with
  | nil => exact absurd rfl hne
  | @cons text v texts items hfirst hrest ih =>
    rcases texts with _ | ⟨text', texts⟩
    · cases hrest
      rw [List.intercalate_singleton]
      exact (hfirst.reads hknown' (.before q hq) rest).mono fun ts hts => meansRow_last hts
    · have htext : ['\n', ','].intercalate (text :: text' :: texts) ++ '\n' :: rest =
          text ++ '\n' :: ',' :: (['\n', ','].intercalate (text' :: texts) ++ '\n' :: rest) := by
        rw [List.intercalate_cons_cons]
        simp
      rw [htext]
      exact ((hfirst.reads hknown' (.before q hq) _).append
        ((reads_newline_array (by simp)).after_blank
          ((reads_comma _ _).append (ih (by simp) (.inr rfl))))).mono
        fun ts hts => meansRow_cons hts

/-- An array of texts that are read alone, with or without a comma after the last. -/
theorem reads_array {texts : List (List Char)} (h : List.Forall₂ ReadsAlone texts items)
    (hne : texts ≠ []) (hknown : Known tails) {last : List Char} (hlast : last = [] ∨ last = [','])
    (rest : List Char) :
    Reads ⟨"main", tails, '(' :: (['\n', ','].intercalate texts ++ '\n' :: (last ++ ')' :: rest))⟩
      (Means (.array items)) ⟨after tails, tails, rest⟩ := by
  have hrow := reads_row h hne (.inl rfl) hknown (last ++ ')' :: rest)
  rcases hlast with rfl | rfl
  · exact ((reads_openArray tails _).append ((hrow.mono fun ts hts => hts.1).append
      ((reads_newline_array (by simp)).after_blank
        (reads_closeArray (.inr (.inl rfl)) tails rest)))).mono fun ts hts => means_array hts
  · have hitems : Reads ⟨"arrayHead", "arrayTail" :: tails, ['\n', ','].intercalate texts ++
        '\n' :: ',' :: ')' :: rest⟩ (MeansItems items)
        ⟨"afterComma", "arrayTail" :: tails, ')' :: rest⟩ := by
      refine (hrow.append ((reads_newline_array (by simp)).after_blank (reads_comma _ _))).mono ?_
      rintro ts ⟨us, vs, ⟨-, hcomma⟩, ⟨c, hc, htext, rfl⟩, rfl⟩
      exact hcomma ⟨c, hc, htext⟩
    exact ((reads_openArray tails _).append (hitems.append
      (reads_closeArray (.inr (.inr rfl)) tails rest))).mono fun ts hts => means_array hts

/-! ### Commas without values -/

lemma halts_comma (hq : q = "arrayHead" ∨ q = "afterComma") (tails : List String)
    (rest : List Char) :
    Halts ⟨q, tails, ',' :: rest⟩ :=
  (reads_idle hq (by decide) rest).halts
    (halts_of_stuck (stuck_of_refuses (by decide) rest) tails)

lemma halts_doubled {texts : List (List Char)} (h : List.Forall₂ ReadsAlone texts items)
    (hne : texts ≠ []) (rest : List Char) :
    Halts ⟨"main", [], '(' :: (['\n', ','].intercalate texts ++ '\n' :: ',' :: ',' :: rest)⟩ :=
  (reads_openArray [] _).halts ((reads_row h hne (.inl rfl) known_nil _).halts
    ((reads_newline_array (by simp)).halts
      ((reads_comma _ _).halts (halts_comma (.inr rfl) _ rest))))

/-! ### Members -/

abbrev MeansMember (key : String) (v : Value) : List (Token Tag) → Prop :=
  Both (Single (.leaf .key) (keyText key.toList)) (Both (Single (.skip .equals) ['=']) (Means v))

/-- The tokens of members, with or without one more semicolon. -/
def MeansTable (entries : List (String × Value)) (ts : List (Token Tag)) : Prop :=
  MeansEntries entries ts ∧ ∀ semicolon : Semicolon, MeansEntries entries (ts ++ [semicolon.1])

lemma meansEntries_last (h : MeansMember key v ts) : MeansEntries [(key, v)] ts := by
  obtain ⟨_, _, ⟨k, hk, hktext, rfl⟩, ⟨_, _, ⟨e, he, hetext, rfl⟩, ⟨p, rfl, hp⟩, rfl⟩, rfl⟩ := h
  refine ⟨.last ⟨k, hk⟩ ⟨e, he, hetext⟩ p, rfl, ?_⟩
  rw [Members.entries, hp]
  show Except.ok [(keyName k.text, v)] = _
  rw [hktext, keyName_keyText]

lemma meansEntries_member {us vs : List (Token Tag)} (hus : MeansMember key v us)
    (hvs : Both (Single (.skip .separator) [';']) (MeansEntries entries) vs) :
    MeansEntries ((key, v) :: entries) (us ++ vs) := by
  obtain ⟨ks, _, hks, ⟨es, ps, hes, hps, rfl⟩, rfl⟩ := hus
  refine meansEntries_cons
    ⟨ks, es ++ (ps ++ vs), hks, ⟨es, _, hes, ⟨ps, vs, hps, hvs, rfl⟩, rfl⟩, ?_⟩
  rw [List.append_assoc, List.append_assoc]

lemma meansTable_last (h : MeansMember key v ts) : MeansTable [(key, v)] ts :=
  ⟨meansEntries_last h, fun semicolon => meansEntries_member h
    ⟨[semicolon.1], [], ⟨_, semicolon.2.1, semicolon.2.2, rfl⟩, meansEntries_nil, rfl⟩⟩

lemma meansTable_cons
    (h : Both (MeansMember key v)
      (Both (Single (.skip .separator) [';']) (MeansTable entries)) ts) :
    MeansTable ((key, v) :: entries) ts := by
  obtain ⟨us, _, hus, ⟨ss, ws, hss, ⟨htable, hmore⟩, rfl⟩, rfl⟩ := h
  refine ⟨meansEntries_member hus ⟨ss, ws, hss, htable, rfl⟩, fun semicolon => ?_⟩
  rw [List.append_assoc, List.append_assoc]
  exact meansEntries_member hus ⟨ss, _, hss, hmore semicolon, rfl⟩

def memberText (key : String) (text : List Char) : List Char :=
  keyText key.toList ++ ' ' :: '=' :: ' ' :: text

/-- The text of a member whose value is read alone. -/
def IsMember (w : List Char) (e : String × Value) : Prop :=
  ∃ text, ReadsAlone text e.2 ∧ w = memberText e.1 text

lemma reads_member {w : List Char} {e : String × Value} (h : IsMember w e) (hknown : Known tails)
    (rest : List Char) :
    Reads ⟨"beforeKey", "dictTail" :: tails, w ++ '\n' :: rest⟩ (MeansMember e.1 e.2)
      ⟨"dictTail", "dictTail" :: tails, '\n' :: rest⟩ := by
  obtain ⟨text, halone, rfl⟩ := h
  have htext : memberText e.1 text ++ '\n' :: rest =
      keyText e.1.toList ++ ' ' :: '=' :: ' ' :: (text ++ '\n' :: rest) := by
    simp [memberText]
  have hafter : ("afterKey", spaceRules ++ _) ∈ ruleTable := List.mem_of_getElem? (i := 9) rfl
  have hequals : Solid ('=' :: ' ' :: (text ++ '\n' :: rest)) := solid_cons (by decide) _
  rw [htext]
  exact (reads_key e.1.toList _ _).append ((reads_space hafter hequals).after_blank
    ((reads_equals _ _).append (halone.reads_after_space (known_dict hknown) rest)))

/-- **Tables**: members whose values are read alone are read as those of a dict. -/
theorem reads_table {members : List (List Char)} (h : List.Forall₂ IsMember members entries)
    (hne : members ≠ []) (hknown : Known tails) (rest : List Char) :
    Reads ⟨"beforeKey", "dictTail" :: tails, ['\n', ';'].intercalate members ++ '\n' :: rest⟩
      (MeansTable entries) ⟨"dictTail", "dictTail" :: tails, '\n' :: rest⟩ := by
  induction h with
  | nil => exact absurd rfl hne
  | @cons w e members entries hfirst hrest ih =>
    rcases members with _ | ⟨w', members⟩
    · cases hrest
      rw [List.intercalate_singleton]
      exact (reads_member hfirst hknown rest).mono fun ts hts => meansTable_last hts
    · have htext : ['\n', ';'].intercalate (w :: w' :: members) ++ '\n' :: rest =
          w ++ '\n' :: ';' :: (['\n', ';'].intercalate (w' :: members) ++ '\n' :: rest) := by
        rw [List.intercalate_cons_cons]
        simp
      rw [htext]
      exact ((reads_member hfirst hknown _).append ((reads_newline_dict (by simp)).after_blank
        ((reads_semicolon _ _).append (ih (by simp))))).mono fun ts hts => meansTable_cons hts

/-- A dict of members whose values are read alone, with or without a semicolon after the last. -/
theorem reads_dict {members : List (List Char)} (h : List.Forall₂ IsMember members entries)
    (hne : members ≠ []) (hknown : Known tails) {last : List Char}
    (hlast : last = [] ∨ last = [';']) (rest : List Char) :
    Reads ⟨"main", tails,
        '\x7b' :: (['\n', ';'].intercalate members ++ '\n' :: (last ++ '\x7d' :: rest))⟩
      (Means (.dict (Entries.ofList entries))) ⟨after tails, tails, rest⟩ := by
  have htable := reads_table h hne hknown (last ++ '\x7d' :: rest)
  rcases hlast with rfl | rfl
  · exact ((reads_openDict tails _).append ((htable.mono fun ts hts => hts.1).append
      ((reads_newline_dict (by simp)).after_blank
        (reads_closeDict (.inr rfl) tails rest)))).mono fun ts hts => means_dict hts
  · have hentries : Reads ⟨"beforeKey", "dictTail" :: tails, ['\n', ';'].intercalate members ++
        '\n' :: ';' :: '\x7d' :: rest⟩ (MeansEntries entries)
        ⟨"beforeKey", "dictTail" :: tails, '\x7d' :: rest⟩ := by
      refine (htable.append ((reads_newline_dict (by simp)).after_blank
        (reads_semicolon _ _))).mono ?_
      rintro ts ⟨us, vs, ⟨-, hsemicolon⟩, ⟨c, hc, htext, rfl⟩, rfl⟩
      exact hsemicolon ⟨c, hc, htext⟩
    exact ((reads_openDict tails _).append (hentries.append
      (reads_closeDict (.inl rfl) tails rest))).mono fun ts hts => means_dict hts

/-! ### Whole texts -/

def member (key text : String) : String := String.ofList (keyText key.toList) ++ " = " ++ text

lemma toList_member (key text : String) :
    (member key text).toList = memberText key text.toList := by
  simp [member, memberText]

/-- The texts of some values make up the texts of arrays and dicts of them. -/
structure Composes (texts : List String) (values : List Value) : Prop where
  array : parse ("(" ++ "\n,".intercalate texts ++ "\n)") = .ok (.array values)
  array_comma : parse ("(" ++ "\n,".intercalate texts ++ "\n,)") = .ok (.array values)
  /-- After any of the texts, one comma is enough. -/
  doubled : ∀ first, first ≠ [] → first <+: texts → ∀ rest, ∃ location source,
    parse ("(" ++ "\n,".intercalate first ++ "\n,," ++ rest) =
      .error (.noRule location "main" source)
  leading : ∀ rest, ∃ location source,
    parse ("(," ++ rest) = .error (.noRule location "main" source)
  /-- The keys may repeat. -/
  dict : ∀ keys : List String, keys.length = texts.length →
    parse ("\x7b" ++ "\n;".intercalate (List.zipWith member keys texts) ++ "\n\x7d") =
      .ok (.dict (Entries.ofList (keys.zip values)))
  dict_semicolon : ∀ keys : List String, keys.length = texts.length →
    parse ("\x7b" ++ "\n;".intercalate (List.zipWith member keys texts) ++ "\n;\x7d") =
      .ok (.dict (Entries.ofList (keys.zip values)))

variable {texts : List String} {values : List Value}

lemma forall₂_readsAlone (h : List.Forall₂ (fun text v => parse text = .ok v) texts values) :
    List.Forall₂ ReadsAlone (texts.map String.toList) values :=
  List.forall₂_map_left_iff.2 (h.imp fun _ _ => readsAlone_of_parse)

lemma forall₂_isMember (h : List.Forall₂ (fun text v => parse text = .ok v) texts values)
    {keys : List String} (hkeys : keys.length = texts.length) :
    List.Forall₂ IsMember ((List.zipWith member keys texts).map String.toList)
      (keys.zip values) := by
  induction h generalizing keys with
  | nil =>
    rw [List.zipWith_nil_right, List.zip_nil_right]
    exact .nil
  | @cons text v texts values hfirst _ ih =>
    rcases keys with _ | ⟨key, keys⟩
    · cases hkeys
    · exact .cons ⟨text.toList, readsAlone_of_parse hfirst, toList_member key text⟩
        (ih (by simpa using hkeys))

lemma parse_array (h : List.Forall₂ (fun text v => parse text = .ok v) texts values)
    (hne : texts ≠ []) {close : String} (hclose : close = "\n)" ∨ close = "\n,)") :
    parse ("(" ++ "\n,".intercalate texts ++ close) = .ok (.array values) := by
  obtain ⟨last, hlast, htext⟩ :
      ∃ last, (last = [] ∨ last = [',']) ∧ close.toList = '\n' :: (last ++ [')']) := by
    rcases hclose with rfl | rfl
    · exact ⟨[], .inl rfl, rfl⟩
    · exact ⟨[','], .inr rfl, rfl⟩
  have hread : Reads ⟨"main", [], _⟩ (Means (.array values)) ⟨"end", [], []⟩ :=
    reads_array (forall₂_readsAlone h) (by simpa using hne) known_nil hlast []
  refine parse_of_reads ?_
  simpa [String.toList_intercalate, htext] using hread

lemma parse_dict (h : List.Forall₂ (fun text v => parse text = .ok v) texts values)
    (hne : texts ≠ []) {keys : List String} (hkeys : keys.length = texts.length) {close : String}
    (hclose : close = "\n\x7d" ∨ close = "\n;\x7d") :
    parse ("\x7b" ++ "\n;".intercalate (List.zipWith member keys texts) ++ close) =
      .ok (.dict (Entries.ofList (keys.zip values))) := by
  obtain ⟨last, hlast, htext⟩ :
      ∃ last, (last = [] ∨ last = [';']) ∧ close.toList = '\n' :: (last ++ ['\x7d']) := by
    rcases hclose with rfl | rfl
    · exact ⟨[], .inl rfl, rfl⟩
    · exact ⟨[';'], .inr rfl, rfl⟩
  have hmembers : (List.zipWith member keys texts).map String.toList ≠ [] := by
    rw [← List.length_pos_iff] at hne ⊢
    simpa [hkeys] using hne
  have hread : Reads ⟨"main", [], _⟩ (Means (.dict (Entries.ofList (keys.zip values))))
      ⟨"end", [], []⟩ :=
    reads_dict (forall₂_isMember h hkeys) hmembers known_nil hlast []
  refine parse_of_reads ?_
  simpa [String.toList_intercalate, htext] using hread

lemma parse_doubled (h : List.Forall₂ (fun text v => parse text = .ok v) texts values)
    (hne : texts ≠ []) (rest : String) : ∃ location source,
      parse ("(" ++ "\n,".intercalate texts ++ "\n,," ++ rest) =
        .error (.noRule location "main" source) := by
  have hhalts := halts_doubled (forall₂_readsAlone h) (by simpa using hne) rest.toList
  refine parse_of_halts ?_
  simpa [String.toList_intercalate] using hhalts

lemma parse_leading (rest : String) : ∃ location source,
    parse ("(," ++ rest) = .error (.noRule location "main" source) := by
  have hhalts : Halts ⟨"main", [], '(' :: ',' :: rest.toList⟩ :=
    (reads_openArray [] _).halts (halts_comma (.inl rfl) _ _)
  refine parse_of_halts ?_
  simpa using hhalts

/-- **Composition**: what texts are read as alone they are read as in arrays and dicts, whatever
blanks and comments they have, and no comma may come where a value should. -/
theorem texts_compose (h : List.Forall₂ (fun text v => parse text = .ok v) texts values)
    (hne : texts ≠ []) : Composes texts values where
  array := parse_array h hne (.inl rfl)
  array_comma := parse_array h hne (.inr rfl)
  doubled := by
    intro first hfirst hprefix rest
    have htake := List.forall₂_take first.length h
    rw [← List.prefix_iff_eq_take.1 hprefix] at htake
    exact parse_doubled htake hfirst rest
  leading := parse_leading
  dict := fun _ hkeys => parse_dict h hne hkeys (.inl rfl)
  dict_semicolon := fun _ hkeys => parse_dict h hne hkeys (.inr rfl)

set_option maxRecDepth 4000 in
/-- A text with a comment at its end, and one with blanks around it. -/
theorem texts_compose_comment : Composes ["1 // one", " (\"),\", :true) "]
    [.integer 1, .array [.string "),", .boolean true]] :=
  texts_compose (.cons rfl (.cons rfl .nil)) (by decide)

end ScanTree.PropertyList
