import ScanTree.Proofs.PropertyList.DeadEnds

/-!
Texts that are read alone, on lines inside other texts.

What a scan chooses hangs on its state and the text, and what is open around a value only shows
after the last token of the value. So a text that is read alone gives the same tokens inside an
array or a dict, but for a step without text to where an element begins. No token of it can run into
the next line, or the text alone would be at a dead end.
-/

namespace ScanTree.PropertyList

open Pattern

/-! ### Tokens elsewhere -/

/-- Tokens with the same tag and text, wherever they are. -/
structure Twin (t u : Token Tag) : Prop where
  tag : u.tag = t.tag
  text : u.text = t.text

abbrev Twins : List (Token Tag) → List (Token Tag) → Prop := List.Forall₂ Twin

variable {t u : Token Tag} {ts us vs : List (Token Tag)}

lemma Twin.literalFits (h : Twin t u) (ht : LiteralFits t) : LiteralFits u := by
  simp only [LiteralFits, numeral?, h.tag, h.text] at ht ⊢
  exact ht

lemma Twins.allFit (h : Twins ts us) (hfit : AllFit ts) : AllFit us := by
  induction h with
  | nil => exact hfit
  | cons ht _ ih =>
    obtain ⟨hfirst, hrest⟩ := List.forall_mem_cons.1 hfit
    exact List.forall_mem_cons.2 ⟨ht.literalFits hfirst, ih hrest⟩

lemma Twins.split (h : Twins (ts ++ us) vs) :
    ∃ ts' us', vs = ts' ++ us' ∧ Twins ts ts' ∧ Twins us us' := by
  induction ts generalizing vs with
  | nil => exact ⟨[], vs, rfl, .nil, h⟩
  | cons t ts ih =>
    obtain ⟨t', vs', ht, hvs, rfl⟩ := List.forall₂_cons_left_iff.1 h
    obtain ⟨ts', us', rfl, hts, hus⟩ := ih hvs
    exact ⟨t' :: ts', us', rfl, .cons ht hts, hus⟩

lemma Twins.bracket {o c : Token Tag} (h : Twins (o :: (ts ++ [c])) vs) :
    ∃ o' ts' c', vs = o' :: (ts' ++ [c']) ∧ Twin o o' ∧ Twins ts ts' ∧ Twin c c' := by
  obtain ⟨o', vs, ho, hvs, rfl⟩ := List.forall₂_cons_left_iff.1 h
  obtain ⟨ts', us, rfl, hts, hus⟩ := Twins.split hvs
  obtain ⟨c', us, hc, hnil, rfl⟩ := List.forall₂_cons_left_iff.1 hus
  obtain rfl := List.forall₂_nil_left_iff.1 hnil
  exact ⟨o', ts', c', rfl, ho, hts, hc⟩

lemma Twins.lift {P : Token Tag → Prop} (hP : ∀ {t u}, Twin t u → P t → P u)
    {xs : List { t : Token Tag // P t }} (h : Twins (xs.map Subtype.val) us) :
    ∃ ys : List { t : Token Tag // P t }, ys.map Subtype.val = us ∧
      List.Forall₂ (fun x y => Twin x.1 y.1) xs ys := by
  induction xs generalizing us with
  | nil =>
    obtain rfl := List.forall₂_nil_left_iff.1 h
    exact ⟨[], rfl, .nil⟩
  | cons x xs ih =>
    obtain ⟨u, us, hu, hus, rfl⟩ := List.forall₂_cons_left_iff.1 h
    obtain ⟨ys, rfl, hys⟩ := ih hus
    exact ⟨⟨u, hP hu x.2⟩ :: ys, rfl, .cons hu hys⟩

lemma Twin.scalarValue (h : Twin t u) : scalarValue u = scalarValue t := by
  rw [PropertyList.scalarValue, PropertyList.scalarValue, h.tag, h.text]

lemma Twin.partText (h : Twin t u) : partText u = partText t := by
  rw [PropertyList.partText, PropertyList.partText, h.tag, h.text]

lemma mapM_partText {xs ys : List Part} (h : List.Forall₂ (fun x y => Twin x.1 y.1) xs ys) :
    (ys.mapM fun t => partText t.1) = xs.mapM fun t => partText t.1 := by
  induction h with
  | nil => rfl
  | cons ht _ ih => rw [List.mapM_cons, List.mapM_cons, ht.partText, ih]

lemma map_text {P : Token Tag → Prop} {xs ys : List { t : Token Tag // P t }}
    (h : List.Forall₂ (fun x y => Twin x.1 y.1) xs ys) :
    (ys.map fun t => t.1.text) = xs.map fun t => t.1.text := by
  induction h with
  | nil => rfl
  | cons ht _ ih => rw [List.map_cons, List.map_cons, ht.text, ih]

mutual

/-- **Meanings move with phrases**: twins of the tokens of a phrase are those of one that means the
same. -/
theorem Phrase.twin : (p : Phrase) → {us : List (Token Tag)} → Twins p.tokens us →
    ∃ p' : Phrase, p'.tokens = us ∧ p'.value = p.value
  | .scalar t, us, h => by
    obtain ⟨u, us, hu, hnil, rfl⟩ := List.forall₂_cons_left_iff.1 h
    obtain rfl := List.forall₂_nil_left_iff.1 hnil
    exact ⟨.scalar ⟨u, by rw [hu.tag]; exact t.2⟩, rfl, hu.scalarValue⟩
  | .string opener parts closer, us, h => by
    obtain ⟨o, ts, c, rfl, ho, hts, hc⟩ := Twins.bracket h
    obtain ⟨ys, rfl, hys⟩ := hts.lift (P := fun t => t.tag = .leaf .chars ∨ t.tag = .leaf .escape)
      fun ht => by rw [ht.tag]; exact id
    refine ⟨.string ⟨o, ho.tag.trans opener.2⟩ ys ⟨c, hc.tag.trans closer.2⟩, rfl, ?_⟩
    rw [Phrase.value, Phrase.value, mapM_partText hys]
  | .data opener chunks closer, us, h => by
    obtain ⟨o, ts, c, rfl, ho, hts, hc⟩ := Twins.bracket h
    obtain ⟨ys, rfl, hys⟩ := hts.lift (P := fun t => t.tag = .leaf .data) fun ht => ht.tag.trans
    refine ⟨.data ⟨o, ho.tag.trans opener.2⟩ ys ⟨c, hc.tag.trans closer.2⟩, rfl, ?_⟩
    rw [Phrase.value, Phrase.value, map_text hys]
  | .array opener es closer, us, h => by
    obtain ⟨o, ts, c, rfl, ho, hts, hc⟩ := Twins.bracket h
    obtain ⟨es', rfl, hes⟩ := es.twin hts
    refine ⟨.array ⟨o, ho.tag.trans opener.2⟩ es' ⟨c, hc.tag.trans closer.2⟩, rfl, ?_⟩
    rw [Phrase.value, Phrase.value, hes]
  | .dict opener ms closer, us, h => by
    obtain ⟨o, ts, c, rfl, ho, hts, hc⟩ := Twins.bracket h
    obtain ⟨ms', rfl, hms⟩ := ms.twin hts
    refine ⟨.dict ⟨o, ho.tag.trans opener.2⟩ ms' ⟨c, hc.tag.trans closer.2⟩, rfl, ?_⟩
    rw [Phrase.value, Phrase.value, hms]

theorem Elements.twin : (es : Elements) → {us : List (Token Tag)} → Twins es.tokens us →
    ∃ es' : Elements, es'.tokens = us ∧ es'.values = es.values
  | .nil, us, h => ⟨.nil, (List.forall₂_nil_left_iff.1 h).symm, rfl⟩
  | .last v, us, h => by
    obtain ⟨v', rfl, hv⟩ := v.twin h
    exact ⟨.last v', rfl, by rw [Elements.values, Elements.values, hv]⟩
  | .cons v comma rest, us, h => by
    obtain ⟨ts, us, rfl, hts, hus⟩ := Twins.split h
    obtain ⟨c, vs, hc, hvs, rfl⟩ := List.forall₂_cons_left_iff.1 hus
    obtain ⟨v', rfl, hv⟩ := v.twin hts
    obtain ⟨rest', rfl, hrest⟩ := rest.twin hvs
    refine ⟨.cons v' ⟨c, hc.tag.trans comma.2.1, hc.text.trans comma.2.2⟩ rest', rfl, ?_⟩
    rw [Elements.values, Elements.values, hv, hrest]

theorem Members.twin : (ms : Members) → {us : List (Token Tag)} → Twins ms.tokens us →
    ∃ ms' : Members, ms'.tokens = us ∧ ms'.entries = ms.entries
  | .nil, us, h => ⟨.nil, (List.forall₂_nil_left_iff.1 h).symm, rfl⟩
  | .last key equals v, us, h => by
    obtain ⟨k, us, hk, hus, rfl⟩ := List.forall₂_cons_left_iff.1 h
    obtain ⟨e, vs, he, hvs, rfl⟩ := List.forall₂_cons_left_iff.1 hus
    obtain ⟨v', rfl, hv⟩ := v.twin hvs
    refine ⟨.last ⟨k, hk.tag.trans key.2⟩
      ⟨e, he.tag.trans equals.2.1, he.text.trans equals.2.2⟩ v', rfl, ?_⟩
    rw [Members.entries, Members.entries, hv, hk.text]
  | .cons key equals v semicolon rest, us, h => by
    obtain ⟨k, us, hk, hus, rfl⟩ := List.forall₂_cons_left_iff.1 h
    obtain ⟨e, vs, he, hvs, rfl⟩ := List.forall₂_cons_left_iff.1 hus
    obtain ⟨ts, ws, rfl, hts, hws⟩ := Twins.split hvs
    obtain ⟨s, ws, hs, hrest, rfl⟩ := List.forall₂_cons_left_iff.1 hws
    obtain ⟨v', rfl, hv⟩ := v.twin hts
    obtain ⟨rest', rfl, hentries⟩ := rest.twin hrest
    refine ⟨.cons ⟨k, hk.tag.trans key.2⟩ ⟨e, he.tag.trans equals.2.1, he.text.trans equals.2.2⟩ v'
      ⟨s, hs.tag.trans semicolon.2.1, hs.text.trans semicolon.2.2⟩ rest', rfl, ?_⟩
    rw [Members.entries, Members.entries, hv, hentries, hk.text]

end

/-! ### Landings inside other tails -/

variable {q q' : String} {tails outer : List String} {r : Rule Tag Nesting}
  {rules more : List (Rule Tag Nesting)} {n : Nat} {w x : List Char}

def Known (tails : List String) : Prop := ∀ tail ∈ tails, tail = "arrayTail" ∨ tail = "dictTail"

lemma known_nil : Known [] := List.forall_mem_nil _

lemma known_array (h : Known tails) : Known ("arrayTail" :: tails) :=
  List.forall_mem_cons.2 ⟨.inl rfl, h⟩

lemma known_dict (h : Known tails) : Known ("dictTail" :: tails) :=
  List.forall_mem_cons.2 ⟨.inr rfl, h⟩

def lift (outer : List String) (q : String) : String := if q = "end" then after outer else q

lemma lift_of_ne (hq : q ≠ "end") : lift outer q = q := if_neg hq

lemma after_append (hknown : Known tails) : after (tails ++ outer) = lift outer (after tails) := by
  rcases tails with _ | ⟨tail, tails⟩
  · rfl
  · have htail : tail ≠ "end" := by rcases hknown tail List.mem_cons_self with rfl | rfl <;> decide
    exact (lift_of_ne htail).symm

/-- A rule does inside other tails what it does without them. -/
def Lifts (q : String) (r : Rule Tag Nesting) : Prop :=
  ∀ tails outer, Nested q tails → q ≠ "end" →
    landing r q (tails ++ outer) =
      (lift outer (landing r q tails).1, (landing r q tails).2 ++ outer)

variable (pattern : Option String) (emit : Emit Tag Nesting)

lemma lifts_stay : Lifts q ⟨pattern, emit, .stay⟩ := by
  intro tails outer _ hq
  simp only [landing, Goto.apply, lift_of_ne hq]

lemma lifts_const {state : String} (hstate : state ≠ "end") :
    Lifts q ⟨pattern, emit, .const state⟩ := by
  intro tails outer _ _
  simp only [landing, Goto.apply, lift_of_ne hstate]

lemma lifts_descend {tail first : String} (hfirst : first ≠ "end") :
    Lifts q ⟨pattern, emit, descend tail first⟩ := by
  intro tails outer _ _
  simp only [landing, descend, Goto.apply, lift_of_ne hfirst, List.cons_append]

lemma lifts_resume : Lifts q ⟨pattern, emit, resume⟩ := by
  intro tails outer hn _
  exact Prod.ext (after_append hn.known) rfl

/-- A bracket closes what is innermost. -/
lemma lifts_ascend (hq : (q = "arrayHead" ∨ q = "arrayTail" ∨ q = "afterComma") ∨
    q = "dictTail" ∨ q = "beforeKey") : Lifts q ⟨pattern, emit, ascend⟩ := by
  intro tails outer hn _
  have hne : tails ≠ [] := by
    rintro rfl
    rcases hq with hq | hq
    · cases hn.arrays hq
    · cases hn.dicts (by tauto)
  have htail : (tails ++ outer).tail = tails.tail ++ outer := List.tail_append_of_ne_nil hne
  have hknown : Known tails.tail := hn.known_tail
  refine Prod.ext ?_ htail
  show after (tails ++ outer).tail = _
  rw [htail]
  exact after_append hknown

lemma lifts_of_mem (hq : (q, rules) ∈ ruleTable) (hr : r ∈ rules) : Lifts q r := by
  have hall : ∀ e ∈ ruleTable, ∀ r ∈ e.2, Lifts e.1 r := by
    simp only [ruleTable, mainRules, elementRules, spaceRules, closeArray, closeDict,
      List.forall_mem_cons, List.forall_mem_append]
    simp [rule, lineRule, otherwise, lifts_stay, lifts_const, lifts_resume, lifts_descend,
      lifts_ascend]
  exact hall _ hq r hr

lemma landing_spaceRules (hr : r ∈ spaceRules) (q : String) (tails : List String) :
    landing r q tails = (q, tails) := by
  have hall : ∀ r ∈ spaceRules, landing r q tails = (q, tails) := by
    simp [spaceRules, rule, lineRule, landing, Goto.apply]
  exact hall r hr

lemma past_spaceRules (hr : r ∈ spaceRules) (y : Spot) (n : Nat) :
    y.past r n = ⟨y.state, y.tails, y.text.drop n⟩ := by
  rw [Spot.past, landing_spaceRules hr]

/-! ### Choices inside other texts -/

/-- The text of a choice that is alive alone does not run into the next line. -/
lemma Chooses.of_line (h : Chooses ⟨q, tails, w⟩ r n) (hlive : ¬ Dead ⟨q, tails, w⟩)
    (tails' : List String) (x : List Char) : Chooses ⟨q, tails', w ++ '\n' :: x⟩ r n := by
  have hw : w ≠ [] := by
    rintro rfl
    obtain ⟨rules, hchosen⟩ := h.chosen
    obtain ⟨hidle, -⟩ := hchosen.idle (Nat.le_zero.1 hchosen.le)
    have hq : q ≠ "end" := by
      rintro rfl
      cases hidle
    exact hlive (dead_at_end hq tails)
  obtain ⟨r', m, hgrown⟩ := h.grow (x := '\n' :: x)
    (show Look.isWord false '\n' = false by decide)
  have hle : m ≤ w.length := by
    by_contra hlt
    exact hlive (dead_of_line_beyond hgrown (Nat.lt_of_not_le hlt) hw)
  obtain ⟨rfl, rfl⟩ := hgrown.of_cut hle h
  exact hgrown

lemma pick?_append (place : Place) (rules more : List (Rule Tag Nesting)) :
    pick? place (rules ++ more) = (pick? place rules).or (pick? place more) := by
  induction rules with
  | nil => rfl
  | cons r rules ih => rw [List.cons_append, pick?, pick?, ih, Option.or_assoc]

/-- After a value there are blanks wherever it stands. -/
lemma Chooses.after (h : Chooses ⟨"end", tails, w⟩ r n) (hknown : Known outer) :
    r ∈ spaceRules ∧ Chooses ⟨PropertyList.after outer, outer, w⟩ r n := by
  obtain ⟨rules, place, stop, hq, hrest, hp, rfl⟩ := h
  obtain rfl : rules = spaceRules := rules_unique hq (List.mem_of_getElem? (i := 10) rfl)
  have hmem : ∃ more, (PropertyList.after outer, spaceRules ++ more) ∈ ruleTable := by
    rcases outer with _ | ⟨tail, outer⟩
    · exact ⟨[], List.mem_of_getElem? (i := 10) rfl⟩
    · rcases hknown tail List.mem_cons_self with rfl | rfl
      · exact ⟨_, List.mem_of_getElem? (i := 5) rfl⟩
      · exact ⟨_, List.mem_of_getElem? (i := 7) rfl⟩
  obtain ⟨more, hmem⟩ := hmem
  exact ⟨(mem_of_pick? hp).1, _, place, stop, hmem, hrest, by rw [pick?_append, hp]; rfl, rfl⟩

/-- Where a value may go on there is no bracket that closes an array. -/
lemma closeArray_refused (hr : r ∈ spaceRules ++ mainRules) {place : Place}
    (h : r.ownPattern.opens place.rest.head? = true) :
    closeArray.ownPattern.match? place = none := by
  have hclose : closeArray.ownPattern = .set (.char ')') :=
    ownPattern_eq (k := 4) (i := 4) rfl rfl rfl rfl
  have hmain : r.ownPattern.opens (some ')') = false :=
    forall_rule (f := fun q p _ => q = "main" → p.opens (some ')') = false) (by decide)
      mem_main hr rfl
  rw [hclose]
  refine match?_eq_none_of_opens rfl ?_
  rcases hhead : place.rest.head? with _ | c
  · rfl
  · rw [← Bool.not_eq_true]
    intro hc
    rw [hhead, (CharSet.contains_char (by decide)).1 hc, hmain] at h
    cases h

/-- Where an element may begin there are blanks, or a step without text to a value. -/
lemma Chooses.element (h : Chooses ⟨"main", tails, w⟩ r n) (hq : q = "arrayHead" ∨ q = "afterComma")
    (outer : List String) : (r ∈ spaceRules ∧ Chooses ⟨q, outer, w⟩ r n) ∨
      Chooses ⟨q, outer, w⟩ (otherwise (.skip .space) (.const "main")) 0 := by
  obtain ⟨rules, place, stop, hmain, hrest, hp, rfl⟩ := h
  obtain rfl := rules_unique hmain mem_main
  rcases hspace : pick? place spaceRules with _ | ⟨x, stop'⟩
  · right
    rw [pick?_append, hspace, Option.none_or] at hp
    obtain ⟨hr, hown⟩ := mem_of_pick? hp
    have hr' := List.mem_append_right spaceRules hr
    have hclose := closeArray_refused hr' (opens_of_match? (isPlain_of_rule mem_main hr') hown)
    have hplain : ∀ x ∈ elementRules, x.ownPattern.isPlain := fun x hx =>
      isPlain_of_rule (mem_element hq) (List.mem_append_right spaceRules hx)
    refine ⟨_, place, ⟨place.past 0, 0, []⟩, mem_element hq, hrest, ?_, rfl⟩
    rw [pick?_append, hspace, Option.none_or]
    refine pick?_of_leads (i := 1) hplain rfl (fun x hx => ?_) ?_
    · rw [List.mem_singleton.1 hx]
      exact hclose
    · rw [ownPattern_eq (k := 4) (i := 5) rfl rfl rfl rfl]
      exact leads_empty (.start place)
  · left
    rw [pick?_append, hspace, Option.some_or] at hp
    obtain ⟨rfl, rfl⟩ : x = r ∧ stop' = stop := by simpa using hp
    exact ⟨(mem_of_pick? hspace).1, _, place, stop', mem_element hq, hrest,
      by rw [pick?_append, hspace]; rfl, rfl⟩

/-! ### Runs inside other texts -/

variable {s s' : Scan Tag Nesting} {e : Scan.Entry Tag Nesting} {es : List (Scan.Entry Tag Nesting)}
  {y : Spot}

lemma Chooses.reads (h : Chooses y r n) (htag : e.token.tag = tagOf r)
    (htext : e.token.text = String.ofList (y.text.take n)) (hfit : AllFit (skeleton [e])) :
    Reads y (Twins (skeleton [e])) (y.past r n) := by
  intro s hs
  obtain ⟨t, s', log, hn, ht, htext', hs'⟩ := h.pulls hs
  have htwin : Twin e.token t := ⟨ht.trans htag.symm, htext'.trans htext.symm⟩
  have htwins : Twins (skeleton [e]) (skeleton [⟨s.context, t, log⟩]) := by
    have hblank : isBlankToken e.token = isBlankToken t := isBlankToken_eq htwin.tag.symm
    rcases ht : isBlankToken t with _ | _
    · rw [skeleton_of_not_blank (hblank.trans ht), skeleton_of_not_blank (e := ⟨_, t, _⟩) ht]
      exact .cons htwin .nil
    · rw [skeleton_of_blank (hblank.trans ht), skeleton_of_blank (e := ⟨_, t, _⟩) ht]
      exact .nil
  exact ⟨_, s', .one hn, htwins, htwins.allFit hfit, hs'⟩

lemma Chooses.skips (h : Chooses y r n) (hblank : isBlankToken ⟨tagOf r, "", 0, 0⟩ = true) :
    Reads y Nothing (y.past r n) := by
  let e : Scan.Entry Tag Nesting :=
    ⟨⟨0, "", {}⟩, ⟨tagOf r, String.ofList (y.text.take n), 0, 0⟩, []⟩
  have hskel : skeleton [e] = [] :=
    skeleton_of_blank ((isBlankToken_eq (t := e.token) rfl).trans hblank)
  have hread := h.reads (e := e) rfl rfl (by rw [hskel]; exact allFit_nil)
  rw [hskel] at hread
  exact hread.mono fun ts hts => List.forall₂_nil_left_iff.1 hts

def Spot.within (y : Spot) (outer : List String) (x : List Char) : Spot :=
  ⟨lift outer y.state, y.tails ++ outer, y.text ++ x⟩

lemma past_within (hc : Chosen ⟨q, tails, w⟩ r n rules) (hn : Nested q tails) (hq : q ≠ "end") :
    Spot.past ⟨q, tails ++ outer, w ++ x⟩ r n = (Spot.past ⟨q, tails, w⟩ r n).within outer x := by
  have hland := lifts_of_mem hc.state hc.rule tails outer hn hq
  have htext : (w ++ x).drop n = w.drop n ++ x := List.drop_append_of_le_length hc.le
  show Spot.mk (landing r q (tails ++ outer)).1 (landing r q (tails ++ outer)).2
    ((w ++ x).drop n) = _
  rw [hland, htext]
  rfl

/-- The states in which a scan can be inside other tails, while it is in a state alone. -/
inductive Around (outer : List String) : String → List String → String → Prop
  | same (q : String) (tails : List String) : Around outer q tails (lift outer q)
  /-- Where an element may begin. -/
  | before (q' : String) (hq' : q' = "arrayHead" ∨ q' = "afterComma") : Around outer "main" [] q'

lemma Around.eq_after (h : Around outer q tails q') (hq : q = "end") : q' = after outer := by
  cases h with
  | same => rw [hq]; rfl
  | before => exact absurd hq (by decide)

/-- **Step**: a choice that is alive alone gives the same token inside other tails. -/
lemma Around.step (ha : Around outer q tails q') (hn : Nested q tails)
    (hknown : Known outer) (h : Chooses ⟨q, tails, w⟩ r n) (hlive : ¬ Dead ⟨q, tails, w⟩)
    (x : List Char) (htag : e.token.tag = tagOf r)
    (htext : e.token.text = String.ofList (w.take n)) (hfit : AllFit (skeleton [e])) :
    let z := Spot.past ⟨q, tails, w⟩ r n
    ∃ q'', Around outer z.state z.tails q'' ∧
      Reads ⟨q', tails ++ outer, w ++ '\n' :: x⟩ (Twins (skeleton [e]))
        ⟨q'', z.tails ++ outer, z.text ++ '\n' :: x⟩ := by
  obtain ⟨rules, hchosen⟩ := h.chosen
  have htake : (w ++ '\n' :: x).take n = w.take n := List.take_append_of_le_length hchosen.le
  have hdrop : (w ++ '\n' :: x).drop n = w.drop n ++ '\n' :: x :=
    List.drop_append_of_le_length hchosen.le
  have hline := h.of_line hlive (tails ++ outer) x
  have hread : ∀ {q'}, Chooses ⟨q', tails ++ outer, w ++ '\n' :: x⟩ r n →
      Reads ⟨q', tails ++ outer, w ++ '\n' :: x⟩ (Twins (skeleton [e]))
        (Spot.past ⟨q', tails ++ outer, w ++ '\n' :: x⟩ r n) :=
    fun h => h.reads htag (by rw [htext, htake]) hfit
  cases ha with
  | same q tails =>
    by_cases hq : q = "end"
    · subst hq
      obtain rfl := hn.ended rfl
      obtain ⟨hr, hafter⟩ := hline.after hknown
      have := hread hafter
      rw [past_spaceRules hr, hdrop] at this
      rw [past_spaceRules hr]
      exact ⟨_, .same "end" [], this⟩
    · rw [lift_of_ne hq]
      have := hread hline
      rw [past_within hchosen hn hq] at this
      exact ⟨_, .same _ _, this⟩
  | before q' hq' =>
    rcases hline.element hq' ([] ++ outer) with ⟨hr, helement⟩ | hotherwise
    · have := hread helement
      rw [past_spaceRules hr, hdrop] at this
      rw [past_spaceRules hr]
      exact ⟨_, .before q' hq', this⟩
    · have hstart : Reads ⟨q', [] ++ outer, w ++ '\n' :: x⟩ Nothing
          ⟨"main", [] ++ outer, w ++ '\n' :: x⟩ :=
        hotherwise.skips (by decide)
      have := hstart.after_blank (hread hline)
      rw [past_within hchosen hn (by decide)] at this
      exact ⟨_, .same _ _, this⟩

/-- **Runs**: a text whose scan comes to its end alone gives the same tokens inside other tails. -/
theorem Around.reads (ha : Around outer q tails q') (hn : Nested q tails)
    (hknown : Known outer) (hp : Pulls s es s') (hs : Stands s ⟨q, tails, w⟩)
    (hend : Stands s' ⟨"end", [], []⟩) (hfit : AllFit (skeleton es))
    (x : List Char) : Reads ⟨q', tails ++ outer, w ++ '\n' :: x⟩ (Twins (skeleton es))
      ⟨after outer, outer, '\n' :: x⟩ := by
  generalize hy : Spot.mk q tails w = y at hs
  induction hp generalizing q tails q' w y with
  | nil s =>
    obtain rfl := hs.unique hend
    cases hy
    rw [ha.eq_after rfl]
    exact (Reads.refl _).mono fun ts hts => by rw [hts]; exact .nil
  | @cons s mid s' t log es hnext hp ih =>
    subst hy
    have hlive : ¬ Dead ⟨q, tails, w⟩ := fun hdead => hdead s hs _ _ (.cons hnext hp) hend
    obtain ⟨r, n, hchoice, htag, htext, hs'⟩ := hs.next hnext
    obtain ⟨rules, hchosen⟩ := hchoice.chosen
    have hsplit : skeleton (⟨s.context, t, log⟩ :: es) =
        skeleton [⟨s.context, t, log⟩] ++ skeleton es :=
      skeleton_append [_] es
    rw [hsplit] at hfit ⊢
    obtain ⟨hfirst, hrest⟩ := allFit_append.1 hfit
    obtain ⟨q'', ha', hread⟩ :=
      ha.step hn hknown hchoice hlive x (e := ⟨s.context, t, log⟩) htag htext
      hfirst
    refine (hread.append (ih ha' (hn.move hchosen.move) hend hrest _ rfl hs')).mono ?_
    rintro ts ⟨us, vs, hus, hvs, rfl⟩
    exact List.rel_append hus hvs

/-! ### Texts that are read alone -/

/-- A scan of the text alone comes to its end with the tokens of a phrase that means the value. -/
def ReadsAlone (w : List Char) (v : Value) : Prop :=
  ∃ s es s', ∃ p : Phrase, Stands s ⟨"main", [], w⟩ ∧ Pulls s es s' ∧ Stands s' ⟨"end", [], []⟩ ∧
    p.tokens = skeleton es ∧ p.value = .ok v ∧ AllFit (skeleton es)

variable {v : Value}

lemma readsAlone_of_parse {options : Options} {input : String}
    (h : parseWith options input = .ok v) :
    ReadsAlone input.toList v := by
  obtain ⟨es, s', p, hpulls, hend, -, hp, hv, hfit⟩ := pulls_of_parse h
  exact ⟨_, es, s', p, stands_scan input options.excerptLength, hpulls, hend, hp, hv, hfit⟩

/-- **Context independence**: what is read alone is read inside other tails, up to the end of its
last line. -/
theorem ReadsAlone.reads (h : ReadsAlone w v) (hknown : Known outer)
    (ha : Around outer "main" [] q') (x : List Char) :
    Reads ⟨q', outer, w ++ '\n' :: x⟩ (Means v) ⟨after outer, outer, '\n' :: x⟩ := by
  obtain ⟨s, es, s', p, hs, hpulls, hend, hp, hv, hfit⟩ := h
  refine (ha.reads nested_main hknown hpulls hs hend hfit x).mono fun ts hts => ?_
  rw [← hp] at hts
  obtain ⟨p', hp', hv'⟩ := p.twin hts
  exact ⟨p', hp', hv'.trans hv⟩

/-- Blanks in front of a value make no difference. -/
lemma ReadsAlone.after_blanks {b : List Char} (hb : ∀ c ∈ b, blankSet.contains c = true)
    (hw : Solid w) (h : ReadsAlone (b ++ w) v) : ReadsAlone w v := by
  by_cases hne : b = []
  · rwa [hne] at h
  obtain ⟨s, es, s', p, hs, hpulls, hend, hp, hv, hfit⟩ := h
  obtain ⟨fs, mid, hfs, hblank, -, hmid⟩ := reads_blanks mem_main hne hb hw s hs
  obtain ⟨last, log, hn⟩ := next_of_end hend
  obtain ⟨gs, rfl, hgs⟩ := hpulls.rest hfs hn rfl
  have hblank : skeleton fs = [] := hblank
  rw [skeleton_append, hblank, List.nil_append] at hp hfit
  exact ⟨mid, gs, s', p, hmid, hgs, hend, hp, hv, hfit⟩

/-- A blank in front of the text merges with those that it begins with. -/
lemma ReadsAlone.reads_after_space (h : ReadsAlone w v) (hknown : Known outer) (x : List Char) :
    Reads ⟨"main", outer, ' ' :: (w ++ '\n' :: x)⟩ (Means v) ⟨after outer, outer, '\n' :: x⟩ := by
  obtain ⟨b, w', rfl, hb, hsolid⟩ : ∃ b w', w = b ++ w' ∧ (∀ c ∈ b, blankSet.contains c = true) ∧
      w'.head?.any blankSet.contains = false := by
    refine ⟨w.takeWhile blankSet.contains, w.dropWhile blankSet.contains,
      List.takeWhile_append_dropWhile.symm, fun c hc => List.mem_takeWhile_imp hc, ?_⟩
    have hstop := List.head?_dropWhile_not blankSet.contains w
    rcases hhead : (w.dropWhile blankSet.contains).head? with _ | c
    · rfl
    · rw [hhead] at hstop
      exact hstop
  have hnext : Solid (w' ++ '\n' :: x) := by
    refine solid_iff.2 ?_
    rcases w' with _ | ⟨c, cs⟩
    · rfl
    · exact hsolid
  have hspaces : ∀ c ∈ ' ' :: b, blankSet.contains c = true :=
    List.forall_mem_cons.2 ⟨by decide, hb⟩
  have hskip : Reads ⟨"main", outer, (' ' :: b) ++ (w' ++ '\n' :: x)⟩ Nothing
      ⟨"main", outer, w' ++ '\n' :: x⟩ := reads_blanks mem_main (by simp) hspaces hnext
  rw [List.append_assoc]
  exact hskip.after_blank
    ((h.after_blanks hb (solid_iff.2 hsolid)).reads hknown (.same "main" []) x)

end ScanTree.PropertyList
