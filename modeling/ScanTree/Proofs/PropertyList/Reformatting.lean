import ScanTree.Proofs.PropertyList.DeadEnds

/-!
Whatever is read from a text can be written, and is read again as it was.

A value that was read is the meaning of a phrase whose tokens the scan took from the text. So its
dates and its chunks of data are texts that the scan would take again, its reals are numbers, and
its dicts have each key once, which is all that the round trip asks for beside finite reals.
-/

namespace ScanTree

namespace Entries

variable {α : Type} {es : Entries α} {ps : List (String × α)}

lemma nodup_insert (h : (es.map Prod.fst).Nodup) (key : String) (value : α) :
    ((es.insert key value).map Prod.fst).Nodup := by
  have hkeys : (es.insert key value).map Prod.fst =
      if key ∈ es.map Prod.fst then es.map Prod.fst else es.map Prod.fst ++ [key] :=
    keys_insert key value es
  rw [hkeys]
  split_ifs with hkey
  · exact h
  · exact List.nodup_append.2 ⟨h, List.nodup_singleton key, by
      rintro a ha b hb rfl
      exact hkey (List.mem_singleton.1 hb ▸ ha)⟩

lemma mem_insert {key : String} {value : α} {e : String × α} (h : e ∈ es.insert key value) :
    e.2 = value ∨ e ∈ es := by
  induction es with
  | nil =>
    rw [List.mem_singleton.1 h]
    exact .inl rfl
  | cons first es ih =>
    unfold insert at h
    split_ifs at h
    · rcases List.mem_cons.1 h with rfl | h
      · exact .inl rfl
      · exact .inr (List.mem_cons_of_mem _ h)
    · rcases List.mem_cons.1 h with rfl | h
      · exact .inr List.mem_cons_self
      · exact (ih h).imp_right (List.mem_cons_of_mem _)

/-- What entries are made from may repeat keys, the entries do not, and have no other values. -/
lemma ofList_spec (ps : List (String × α)) : ((ofList ps).map Prod.fst).Nodup ∧
    ∀ e ∈ ofList ps, ∃ p ∈ ps, p.2 = e.2 := by
  refine List.foldlRecOn ps _ (motive := fun es : Entries α => (es.map Prod.fst).Nodup ∧
    ∀ e ∈ es, ∃ p ∈ ps, p.2 = e.2) ⟨.nil, by simp⟩ fun es ⟨hkeys, hvalues⟩ p hp => ?_
  refine ⟨nodup_insert hkeys p.1 p.2, fun e he => ?_⟩
  rcases mem_insert he with hvalue | he
  · exact ⟨p, hp, hvalue.symm⟩
  · exact hvalues e he

end Entries

namespace PropertyList

open Pattern Text

namespace Value

mutual

def parts : Value → List Value
  | dict entries => dict entries :: entryParts entries
  | array items => array items :: itemParts items
  | string s => [string s]
  | integer n => [integer n]
  | real x => [real x]
  | boolean b => [boolean b]
  | date text => [date text]
  | data chunks => [data chunks]

def itemParts : List Value → List Value
  | [] => []
  | v :: items => v.parts ++ itemParts items

def entryParts : List (String × Value) → List Value
  | [] => []
  | (_, v) :: entries => v.parts ++ entryParts entries

end

def children : Value → List Value
  | dict entries => entries.map Prod.snd
  | array items => items
  | _ => []

lemma induction {P : Value → Prop} (step : ∀ v : Value, (∀ w ∈ v.children, P w) → P v)
    (v : Value) : P v := by
  refine step v fun w hw => induction step w
termination_by sizeOf v
decreasing_by
  cases v with
  | dict entries =>
    obtain ⟨⟨key, w⟩, he, rfl⟩ := List.mem_map.1 hw
    have := List.sizeOf_lt_of_mem he
    simp only [Prod.mk.sizeOf_spec, dict.sizeOf_spec] at this ⊢
    omega
  | array items =>
    have := List.sizeOf_lt_of_mem (show w ∈ items from hw)
    simp only [array.sizeOf_spec]
    omega
  | _ => cases hw

lemma parts_eq (v : Value) : v.parts = v :: v.children.flatMap parts := by
  have hitems : ∀ items, itemParts items = items.flatMap parts := fun items => by
    induction items with
    | nil => rw [itemParts, List.flatMap_nil]
    | cons v items ih => rw [itemParts, ih, List.flatMap_cons]
  have hentries : ∀ entries, entryParts entries = (entries.map Prod.snd).flatMap parts := by
    intro entries
    induction entries with
    | nil => rw [entryParts, List.map_nil, List.flatMap_nil]
    | cons e entries ih => rw [entryParts, ih, List.map_cons, List.flatMap_cons]
  cases v with
  | dict entries => rw [parts, hentries, children]
  | array items => rw [parts, hitems, children]
  | _ => rw [parts, children, List.flatMap_nil]; all_goals simp

lemma mem_parts {v w : Value} : w ∈ v.parts ↔ w = v ∨ ∃ u ∈ v.children, w ∈ u.parts := by
  rw [parts_eq, List.mem_cons, List.mem_flatMap]

lemma mem_parts_self (v : Value) : v ∈ v.parts := mem_parts.2 (.inl rfl)

lemma allFinite_iff (v : Value) :
    v.allFinite = true ↔ ∀ x, real x ∈ v.parts → x.isFinite = true := by
  have hitems : ∀ items, finiteItems items = true ↔ ∀ w ∈ items, w.allFinite = true := by
    intro items
    induction items with
    | nil => simp [finiteItems]
    | cons v items ih => simp [finiteItems, ih]
  have hentries : ∀ entries, finiteEntries entries = true ↔
      ∀ w ∈ entries.map Prod.snd, w.allFinite = true := by
    intro entries
    induction entries with
    | nil => simp [finiteEntries]
    | cons e entries ih => simp [finiteEntries, ih]
  induction v using induction with
  | step v ih =>
    have hchildren : (∀ w ∈ v.children, w.allFinite = true) ↔
        ∀ x, (∃ u ∈ v.children, real x ∈ u.parts) → x.isFinite = true :=
      ⟨fun h x ⟨u, hu, hx⟩ => (ih u hu).1 (h u hu) x hx,
        fun h w hw => (ih w hw).2 fun x hx => h x ⟨w, hw, hx⟩⟩
    cases v with
    | dict entries =>
      rw [allFinite, hentries]
      exact hchildren.trans (forall_congr' fun x => by simp [mem_parts (v := dict entries)])
    | array items =>
      rw [allFinite, hitems]
      exact hchildren.trans (forall_congr' fun x => by simp [mem_parts (v := array items)])
    | _ => simp [allFinite, parts]

/-- A value is well formed if its dicts, its dates and its data are. -/
lemma wellFormed_of_parts (v : Value)
    (hdict : ∀ entries, dict entries ∈ v.parts → (entries.map Prod.fst).Nodup)
    (hdate : ∀ text, date text ∈ v.parts → isDate text.toList = true)
    (hdata : ∀ chunks, data chunks ∈ v.parts → ∀ chunk ∈ chunks, isChunk chunk.toList = true) :
    v.WellFormed := by
  have hitems : ∀ items, (∀ w ∈ items, w.WellFormed) → WellFormedItems items := by
    intro items
    induction items with
    | nil => simp [WellFormedItems]
    | cons v items ih => simpa [WellFormedItems] using fun hv h => ⟨hv, ih h⟩
  have hentries : ∀ entries, (∀ w ∈ entries.map Prod.snd, w.WellFormed) →
      WellFormedEntries entries := by
    intro entries
    induction entries with
    | nil => simp [WellFormedEntries]
    | cons e entries ih => simpa [WellFormedEntries] using fun hv h => ⟨hv, ih (by simpa using h)⟩
  induction v using induction with
  | step v ih =>
    have hchildren : ∀ w ∈ v.children, w.WellFormed := fun w hw =>
      ih w hw (fun _ h => hdict _ (mem_parts.2 (.inr ⟨w, hw, h⟩)))
        (fun _ h => hdate _ (mem_parts.2 (.inr ⟨w, hw, h⟩)))
        fun _ h => hdata _ (mem_parts.2 (.inr ⟨w, hw, h⟩))
    cases v with
    | dict entries => exact And.intro (hdict _ (mem_parts_self _)) (hentries entries hchildren)
    | array items => exact hitems items hchildren
    | date text => exact hdate _ (mem_parts_self _)
    | data chunks => exact hdata _ (mem_parts_self _)
    | _ => trivial

end Value

/-! ### Tokens and the text around them -/

variable {input : String} {es : List (Scan.Entry Tag Nesting)} {s : Scan Tag Nesting}
  {excerptLength : Nat}

/-- Each token was chosen at a spot, and stands in the text where the spot does. -/
lemma chosen_of_pulls (hp : Pulls (scan input excerptLength) es s) {e : Scan.Entry Tag Nesting}
    (he : e ∈ es) : ∃ before y r n rules, input.toList = before ++ y.text ∧
      byteSize before = e.token.start ∧ Chosen y r n rules ∧ e.token.tag = tagOf r ∧
      e.token.text.toList = y.text.take n := by
  obtain ⟨fs, gs, rfl⟩ := List.append_of_mem he
  obtain ⟨mid, mid', log, hbefore, -, hnext⟩ := hp.split
  obtain ⟨q, tails, place, hat, -⟩ := reached_of_pulls (at_scan input excerptLength) hbefore
  have hs : Stands mid ⟨q, tails, place.rest⟩ := ⟨place, hat, rfl⟩
  obtain ⟨r, n, hchoice, htag, htext, -⟩ := hs.next hnext
  obtain ⟨rules, hchosen⟩ := hchoice.chosen
  obtain ⟨before, hloc⟩ := located_of_pulls hbefore
  obtain ⟨text, hinput, hplace⟩ := hloc.behind.place
  obtain ⟨htakes, -⟩ := hloc.behind.next hnext
  rw [hat.place] at hplace
  refine ⟨before, _, r, n, rules, ?_, ?_, hchosen, htag, by rw [htext, String.toList_ofList]⟩
  · rw [← hloc.input, hinput, Option.some.inj hplace]
  · rw [htakes.start, hloc.behind.offset]

lemma isDate_of_spells {w : List Char} (h : datePattern.Spells w) : isDate w = true := by
  have hplace : (Run.start ⟨none, w⟩).place.rest = w ++ [] := (List.append_nil w).symm
  have hleads : datePattern.Leads (.start ⟨none, w⟩) w.length :=
    leads_of_isRigid (by decide) h hplace
  rw [isDate, read?_date, Option.any_some, hleads.match? (by decide)]
  simp

lemma exists_upTo (p : Char → Bool) (n : Nat) (cs : List Char) : ∃ w rest, cs = w ++ rest ∧
    (∀ c ∈ w, p c = true) ∧ w.length ≤ n ∧ (w.length = n ∨ rest.head?.any p = false) := by
  induction n generalizing cs with
  | zero => exact ⟨[], cs, rfl, by simp, Nat.le_refl 0, .inl rfl⟩
  | succ n ih =>
    rcases cs with _ | ⟨c, cs⟩
    · exact ⟨[], [], rfl, by simp, Nat.zero_le _, .inr rfl⟩
    · cases hc : p c with
      | false => exact ⟨[], c :: cs, rfl, by simp, Nat.zero_le _, .inr hc⟩
      | true =>
        obtain ⟨w, rest, rfl, hw, hlen, hstop⟩ := ih cs
        exact ⟨c :: w, rest, rfl, List.forall_mem_cons.2 ⟨hc, hw⟩, Nat.succ_le_succ hlen,
          hstop.imp_left (congrArg (· + 1))⟩

/-- A chunk takes all hex digits that come, up to eight. -/
lemma chunk_of_match? {place : Place} {stop : Run} (h : chunkPattern.match? place = some stop) :
    isChunk (place.rest.take stop.taken) = true ∧
      ((place.rest.drop stop.taken).head?.any isHexDigit = true → stop.taken = 8) := by
  obtain ⟨w, rest, hrest, hw, hmax, hstop⟩ := exists_upTo isHexDigit 8 place.rest
  have hne : w ≠ [] := by
    rintro rfl
    have hopens := opens_of_match? (by decide) h
    have hnone : rest.head?.any isHexDigit = false := hstop.resolve_left (by decide)
    rw [hrest, List.nil_append] at hopens
    rcases rest with _ | ⟨c, cs⟩
    · cases hopens
    · have hc : hexSet.contains c = true := hopens
      rw [contains_hexSet] at hc
      exact Bool.false_ne_true (hnone.symm.trans hc)
  have hleads : chunkPattern.Leads (.start place) w.length := by
    refine leads_rep_set hrest (fun c hc => by rw [contains_hexSet]; exact hw c hc)
      (List.length_pos_iff.2 hne) (by simpa using hmax) ?_
    refine hstop.imp (fun h => by rw [h]) fun h => ?_
    simpa only [contains_hexSet] using h
  obtain rfl : (⟨place.past w.length, w.length, []⟩ : Run) = stop :=
    Option.some.inj ((hleads.match? (by decide)).symm.trans h)
  show isChunk (place.rest.take w.length) = true ∧
    ((place.rest.drop w.length).head?.any isHexDigit = true → w.length = 8)
  rw [hrest, List.take_left, List.drop_left]
  refine ⟨isChunk_iff.2 ⟨hw, List.length_pos_iff.2 hne, hmax⟩, fun hnext => ?_⟩
  exact hstop.resolve_right (by simp [hnext])

/-- A token stands in the text at its offset, and has eight digits if one follows on it directly. -/
def Fills (input : String) (t : Token Tag) : Prop :=
  ∃ before rest, input.toList = before ++ (t.text.toList ++ rest) ∧ byteSize before = t.start ∧
    (rest.head?.any isHexDigit = true → t.text.toList.length = 8)

lemma date_of_pulls (hp : Pulls (scan input excerptLength) es s) {e : Scan.Entry Tag Nesting}
    (he : e ∈ es) (htag : e.token.tag = .leaf .date) : isDate e.token.text.toList = true := by
  obtain ⟨before, y, r, n, rules, -, -, hchosen, htag', htext⟩ := chosen_of_pulls hp he
  have hp : r.ownPattern = datePattern := forall_rule
    (f := fun _ p tag => tag = .leaf .date → p = datePattern) (by decide) hchosen.state
    hchosen.rule (htag' ▸ htag)
  rw [htext]
  exact isDate_of_spells (hp ▸ hchosen.spells)

lemma chunk_of_pulls (hp : Pulls (scan input excerptLength) es s) {e : Scan.Entry Tag Nesting}
    (he : e ∈ es) (htag : e.token.tag = .leaf .data) :
    isChunk e.token.text.toList = true ∧ Fills input e.token := by
  obtain ⟨before, y, r, n, rules, hinput, hstart, hchosen, htag', htext⟩ := chosen_of_pulls hp he
  obtain ⟨place, stop, hplace, hfound, htaken⟩ := hchosen.found
  have hp : r.ownPattern = chunkPattern := forall_rule
    (f := fun _ p tag => tag = .leaf .data → p = chunkPattern) (by decide) hchosen.state
    hchosen.rule (htag' ▸ htag)
  rw [hp] at hfound
  obtain ⟨hchunk, hmax⟩ := chunk_of_match? hfound
  rw [hplace, htaken] at hchunk hmax
  refine ⟨htext ▸ hchunk, before, y.text.drop n, ?_, hstart, fun hnext => ?_⟩
  · rw [htext, List.take_append_drop, hinput]
  · rw [htext, List.length_take_of_le hchosen.le]
    exact hmax hnext

/-! ### Values that are read -/

/-- The chunks are the leaves of one data block of the text, in their order. -/
def IsBlock (input : String) (chunks : List String) : Prop :=
  ∃ opener ts closer,
    opener :: (ts ++ [closer]) <:+: skeleton (tokens input defaultExcerptLength).1 ∧
    opener.tag = .start .data ∧ closer.tag = .stop .data ∧ ts.map Token.text = chunks ∧
    ∀ t ∈ ts, t.tag = .leaf .data ∧ Fills input t

/-- What holds of every part of a value that is read from a text. -/
def Fit (input : String) : Value → Prop
  | .dict entries => (entries.map Prod.fst).Nodup
  | .date text => isDate text.toList = true
  | .data chunks => (∀ chunk ∈ chunks, isChunk chunk.toList = true) ∧ IsBlock input chunks
  | .real x => x ≠ .nan
  | _ => True

structure Sane (input : String) (t : Token Tag) : Prop where
  spelled : ∀ kind, t.tag = .leaf kind → WellSpelled kind t.text.toList
  date : t.tag = .leaf .date → isDate t.text.toList = true
  chunk : t.tag = .leaf .data → isChunk t.text.toList = true ∧ Fills input t

lemma ofDecimal_ne_nan (negative : Bool) (significand : Nat) (exponent : Int) :
    Binary64.ofDecimal negative significand exponent ≠ .nan := by
  have hrank : ∀ rank, Binary64.ofRank negative rank ≠ .nan := fun rank => by
    unfold Binary64.ofRank
    split_ifs <;> simp
  unfold Binary64.ofDecimal
  dsimp only
  split_ifs
  · exact hrank _
  · simp
  · exact hrank _

lemma floatValue_ne_nan {text : String} (h : WellSpelled .float text.toList) {v : Value}
    (hv : floatValue text = .ok v) : ∃ x, v = .real x ∧ x ≠ .nan := by
  obtain ⟨sign, ds, es, hs, hds, hes, hne, htext⟩ := h
  obtain ⟨hnone, hminus, hplus⟩ := RealText.read_placed hds hes hne
  unfold floatValue at hv
  rcases hs with rfl | rfl | rfl
  · rw [htext, List.nil_append, hnone] at hv
    cases hv
    exact ⟨_, rfl, ofDecimal_ne_nan _ _ _⟩
  · rw [htext, List.singleton_append, hplus] at hv
    cases hv
    exact ⟨_, rfl, ofDecimal_ne_nan _ _ _⟩
  · rw [htext, List.singleton_append, hminus] at hv
    cases hv
    exact ⟨_, rfl, ofDecimal_ne_nan _ _ _⟩

lemma fit_scalar {t : Scalar} (ht : Sane input t.1) {v : Value} (hv : scalarValue t.1 = .ok v) :
    v.children = [] ∧ Fit input v := by
  obtain ⟨t, hrole, hkind⟩ := t
  have hv : scalarValue t = .ok v := hv
  unfold scalarValue at hv
  have htag : ∀ {kind}, t.tag.kind = kind → t.tag = .leaf kind := fun {kind} h => by
    rw [← h, ← show (Tag.mk t.tag.role t.tag.kind) = t.tag from rfl, hrole]
    rfl
  simp only [isScalar, Bool.or_eq_true, decide_eq_true_eq] at hkind
  rcases hkind with (((h | h) | h) | h) | h <;> rw [h] at hv <;> simp only [evaluator?] at hv
  · unfold intValue at hv
    split at hv <;> cases hv
    exact ⟨rfl, trivial⟩
  · unfold hexIntValue at hv
    split at hv <;> cases hv
    exact ⟨rfl, trivial⟩
  · obtain ⟨x, rfl, hx⟩ := floatValue_ne_nan (ht.spelled _ (htag h)) hv
    exact ⟨rfl, hx⟩
  · unfold boolValue at hv
    split_ifs at hv <;> cases hv <;> exact ⟨rfl, trivial⟩
  · cases hv
    exact ⟨rfl, ht.date (htag h)⟩

lemma fit_of_leaf {v : Value} (hnone : v.children = []) (h : Fit input v) :
    ∀ w ∈ v.parts, Fit input w := by
  intro w hw
  rcases Value.mem_parts.1 hw with rfl | ⟨u, hu, -⟩
  · exact h
  · rw [hnone] at hu
    cases hu

lemma infix_bracket {α : Type} {o c : α} {xs ts : List α} (h : o :: (xs ++ [c]) <:+: ts) :
    xs <:+: ts :=
  List.IsInfix.trans ⟨[o], [c], rfl⟩ h

mutual

/-- **Meanings are fit**: so is each part of the meaning of a phrase of the text. -/
theorem Phrase.fit (hts : ∀ t ∈ skeleton (tokens input defaultExcerptLength).1, Sane input t) :
    (p : Phrase) → p.tokens <:+: skeleton (tokens input defaultExcerptLength).1 →
    {v : Value} → p.value = .ok v → ∀ w ∈ v.parts, Fit input w
  | .scalar t, hin, v, hv => by
    obtain ⟨hnone, hfit⟩ := fit_scalar (hts _ (hin.subset (List.mem_singleton.2 rfl))) hv
    exact fit_of_leaf hnone hfit
  | .string opener parts closer, hin, v, hv => by
    rw [Phrase.value] at hv
    rcases hparts : parts.mapM fun t => partText t.1 with e | texts <;>
      rw [hparts] at hv <;> cases hv
    exact fit_of_leaf rfl trivial
  | .data opener chunks closer, hin, v, hv => by
    cases hv
    have hsane : ∀ t ∈ chunks, isChunk t.1.text.toList = true ∧ Fills input t.1 := fun t ht =>
      (hts t.1 ((infix_bracket hin).subset (List.mem_map_of_mem ht))).chunk t.2
    refine fit_of_leaf rfl ⟨?_, opener.1, chunks.map Subtype.val, closer.1, hin, opener.2, closer.2,
      List.map_map, ?_⟩
    · exact List.forall_mem_map.2 fun t ht => (hsane t ht).1
    · exact List.forall_mem_map.2 fun t ht => ⟨t.2, (hsane t ht).2⟩
  | .array opener elements closer, hin, v, hv => by
    rw [Phrase.value] at hv
    rcases hvalues : elements.values with e | values <;> rw [hvalues] at hv <;> cases hv
    intro w hw
    rcases Value.mem_parts.1 hw with rfl | ⟨u, hu, hw⟩
    · trivial
    · exact elements.fit hts (infix_bracket hin) hvalues u hu w hw
  | .dict opener members closer, hin, v, hv => by
    rw [Phrase.value] at hv
    rcases hentries : members.entries with e | entries <;> rw [hentries] at hv <;> cases hv
    obtain ⟨hkeys, hofList⟩ := Entries.ofList_spec entries
    intro w hw
    rcases Value.mem_parts.1 hw with rfl | ⟨u, hu, hw⟩
    · exact hkeys
    · obtain ⟨e, he, rfl⟩ := List.mem_map.1 hu
      obtain ⟨p, hp, hpe⟩ := hofList e he
      exact members.fit hts (infix_bracket hin) hentries p hp w (hpe ▸ hw)

theorem Elements.fit (hts : ∀ t ∈ skeleton (tokens input defaultExcerptLength).1, Sane input t) :
    (es : Elements) → es.tokens <:+: skeleton (tokens input defaultExcerptLength).1 →
    {vs : List Value} → es.values = .ok vs → ∀ v ∈ vs, ∀ w ∈ v.parts, Fit input w
  | .nil, _, vs, hvs => by
    cases hvs
    simp
  | .last p, hin, vs, hvs => by
    rw [Elements.values] at hvs
    rcases hp : p.value with e | x <;> rw [hp] at hvs <;> cases hvs
    exact List.forall_mem_singleton.2 (p.fit hts hin hp)
  | .cons p comma rest, hin, vs, hvs => by
    rw [Elements.values] at hvs
    rcases hp : p.value with e | x <;> rw [hp] at hvs
    · cases hvs
    · rcases hrest : rest.values with e | xs <;> rw [hrest] at hvs <;> cases hvs
      refine List.forall_mem_cons.2 ⟨p.fit hts (List.IsInfix.trans ⟨[], _, rfl⟩ hin) hp, ?_⟩
      have hafter : rest.tokens <:+: (Elements.cons p comma rest).tokens :=
        ⟨p.tokens ++ [comma.1], [], by simp [Elements.tokens]⟩
      exact rest.fit hts (hafter.trans hin) hrest

theorem Members.fit (hts : ∀ t ∈ skeleton (tokens input defaultExcerptLength).1, Sane input t) :
    (ms : Members) → ms.tokens <:+: skeleton (tokens input defaultExcerptLength).1 →
    {entries : List (String × Value)} → ms.entries = .ok entries →
    ∀ e ∈ entries, ∀ w ∈ e.2.parts, Fit input w
  | .nil, _, entries, h => by
    cases h
    simp
  | .last key equals p, hin, entries, h => by
    rw [Members.entries] at h
    rcases hp : p.value with e | x <;> rw [hp] at h <;> cases h
    exact List.forall_mem_singleton.2
      (p.fit hts (List.IsInfix.trans ⟨[key.1, equals.1], [], by simp [Members.tokens]⟩ hin) hp)
  | .cons key equals p semicolon rest, hin, entries, h => by
    rw [Members.entries] at h
    rcases hp : p.value with e | x <;> rw [hp] at h
    · cases h
    · rcases hrest : rest.entries with e | xs <;> rw [hrest] at h <;> cases h
      refine List.forall_mem_cons.2 ⟨p.fit hts (List.IsInfix.trans
        ⟨[key.1, equals.1], semicolon.1 :: rest.tokens, by simp [Members.tokens]⟩ hin) hp, ?_⟩
      exact rest.fit hts (List.IsInfix.trans
        ⟨key.1 :: equals.1 :: (p.tokens ++ [semicolon.1]), [], by simp [Members.tokens]⟩ hin) hrest

end

lemma sane_of_pulls (hp : Pulls (scan input excerptLength) es s) :
    ∀ t ∈ skeleton es, Sane input t := by
  intro t ht
  obtain ⟨e, he, rfl⟩ := List.mem_map.1 (List.mem_of_mem_filter ht)
  exact ⟨spelled_of_pulls (at_scan input excerptLength) hp e he, date_of_pulls hp he,
    chunk_of_pulls hp he⟩

lemma fit_of_parse {v : Value} (h : parse input = .ok v) : ∀ w ∈ v.parts, Fit input w := by
  obtain ⟨es, s, p, hpulls, -, htokens, hp, hv, -⟩ :=
    pulls_of_parse (show parseWith {} _ = _ from h)
  have htokens : (tokens input defaultExcerptLength).1 = es := htokens
  exact p.fit (by rw [htokens]; exact sane_of_pulls hpulls)
    ⟨[], [], by rw [List.nil_append, List.append_nil, hp, htokens]⟩ hv

/-- What is known of a value that was read from a text. -/
structure Reformats (input : String) (v : Value) : Prop where
  dates : ∀ text, .date text ∈ v.parts → isDate text.toList = true
  /-- Within a run of hex digits of the text, all chunks but the last have eight. -/
  chunks : ∀ chunks, .data chunks ∈ v.parts →
    (∀ chunk ∈ chunks, isChunk chunk.toList = true) ∧ IsBlock input chunks
  reals : .real .nan ∉ v.parts
  keys : ∀ entries, .dict entries ∈ v.parts → (entries.map Prod.fst).Nodup
  /-- Either text of the value is read as the value, which has the same texts again. -/
  texts : (∀ negative, .real (.infinite negative) ∉ v.parts) →
    ∀ text, text = v.inline ∨ text = v.indented →
      parse text = .ok v ∧ ∀ w, parse text = .ok w → w.inline = v.inline ∧ w.indented = v.indented

/-- **Reformatting**: whatever comments, blanks, chunks, quotes, signs and digits a text was written
with, the value that is read from it can be written, and is read from what was written. -/
theorem parse_reformats {v : Value} (h : parse input = .ok v) : Reformats input v := by
  have hfit := fit_of_parse h
  have hwell : v.WellFormed := v.wellFormed_of_parts (fun _ h => hfit _ h) (fun _ h => hfit _ h)
    fun _ h => (hfit _ h).1
  refine ⟨fun _ h => hfit _ h, fun _ h => hfit _ h, fun h => hfit _ h rfl, fun _ h => hfit _ h,
    fun hinfinite text htext => ?_⟩
  have hfinite : v.allFinite = true := by
    refine v.allFinite_iff.2 fun x hx => ?_
    rcases x with _ | negative | _
    · exact absurd rfl (hfit _ hx)
    · exact absurd hx (hinfinite negative)
    · rfl
  obtain ⟨hinline, hindented⟩ := (parse_render hwell).1 hfinite
  have hread : parse text = .ok v := by
    rcases htext with rfl | rfl
    · exact hinline
    · exact hindented
  refine ⟨hread, fun w hw => ?_⟩
  obtain rfl := Except.ok.inj (hread.symm.trans hw)
  exact ⟨rfl, rfl⟩

set_option maxRecDepth 4000 in
/-- Hex digits that run over eight, with a comment among them. -/
theorem parse_reformats_block :
    Reformats "(<0123456789/**/ab>)" (.array [.data ["01234567", "89", "ab"]]) := by
  have hparse : parse "(<0123456789/**/ab>)" = .ok (.array [.data ["01234567", "89", "ab"]]) := by
    rw [parse_eq_drain]
    rfl
  exact parse_reformats hparse

end PropertyList

end ScanTree
