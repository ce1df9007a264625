import ScanTree.Proofs.PropertyList.Quoting
import ScanTree.Proofs.PropertyList.Scalars

/-!
Values as they are written: which of them have a text that can be read, what their tokens are, and
how far a scan of the text comes.
-/

namespace ScanTree.PropertyList

open RealText (AllDigits)

namespace Value

mutual

def allFinite : Value → Bool
  | dict entries => finiteEntries entries
  | array items => finiteItems items
  | real x => x.isFinite
  | _ => true

def finiteItems : List Value → Bool
  | [] => true
  | v :: items => v.allFinite && finiteItems items

def finiteEntries : List (String × Value) → Bool
  | [] => true
  | (_, v) :: entries => v.allFinite && finiteEntries entries

end

mutual

/-- No dict has a key twice, dates look like dates, and data comes in chunks of one to eight hex
digits. -/
def WellFormed : Value → Prop
  | dict entries => (entries.map Prod.fst).Nodup ∧ WellFormedEntries entries
  | array items => WellFormedItems items
  | date text => isDate text.toList = true
  | data chunks => ∀ chunk ∈ chunks, isChunk chunk.toList = true
  | _ => True

def WellFormedItems : List Value → Prop
  | [] => True
  | v :: items => v.WellFormed ∧ WellFormedItems items

def WellFormedEntries : List (String × Value) → Prop
  | [] => True
  | (_, v) :: entries => v.WellFormed ∧ WellFormedEntries entries

end

end Value

open Value

variable {x y z : Spot} {P Q : List (Token Tag) → Prop} {b c : Bool} {ts : List (Token Tag)}

/-! ### Tokens of values -/

def Means (v : Value) (ts : List (Token Tag)) : Prop :=
  ∃ p : Phrase, p.tokens = ts ∧ p.value = .ok v

def MeansItems (items : List Value) (ts : List (Token Tag)) : Prop :=
  ∃ es : Elements, es.tokens = ts ∧ es.values = .ok items

def MeansEntries (entries : List (String × Value)) (ts : List (Token Tag)) : Prop :=
  ∃ ms : Members, ms.tokens = ts ∧ ms.entries = .ok entries

lemma means_scalar {kind : Kind} {w : List Char} {v : Value} (hkind : isScalar kind = true)
    (hv : ∀ t : Token Tag, t.tag = .leaf kind → t.text = String.ofList w → scalarValue t = .ok v)
    (h : Single (.leaf kind) w ts) : Means v ts := by
  obtain ⟨t, ht, htext, rfl⟩ := h
  have hscalar : t.tag.role = .leaf ∧ isScalar t.tag.kind = true := by
    rw [ht]
    exact ⟨rfl, hkind⟩
  exact ⟨.scalar ⟨t, hscalar⟩, rfl, hv t ht htext⟩

lemma means_string {w w' s : List Char}
    (h : Both (Single (.start .string) w) (Both (Parts s) (Single (.stop .string) w')) ts) :
    Means (.string (String.ofList s)) ts := by
  obtain ⟨us, vs, ⟨o, ho, -, rfl⟩,
    ⟨us', vs', ⟨parts, rfl, texts, htexts, rfl⟩, ⟨c, hc, -, rfl⟩, rfl⟩,
    rfl⟩ := h
  exact ⟨.string ⟨o, ho⟩ parts ⟨c, hc⟩, rfl, by rw [Phrase.value, htexts]; rfl⟩

lemma means_data {w w' : List Char} {chunks : List String}
    (h : Both (Single (.start .data) w) (Both (Chunks chunks) (Single (.stop .data) w')) ts) :
    Means (.data chunks) ts := by
  obtain ⟨us, vs, ⟨o, ho, -, rfl⟩, ⟨us', vs', ⟨cs, rfl, rfl⟩, ⟨c, hc, -, rfl⟩, rfl⟩, rfl⟩ := h
  exact ⟨.data ⟨o, ho⟩ cs ⟨c, hc⟩, rfl, rfl⟩

lemma means_array {w w' : List Char} {items : List Value}
    (h : Both (Single (.start .array) w) (Both (MeansItems items) (Single (.stop .array) w')) ts) :
    Means (.array items) ts := by
  obtain ⟨us, vs, ⟨o, ho, -, rfl⟩, ⟨us', vs', ⟨es, rfl, hes⟩, ⟨c, hc, -, rfl⟩, rfl⟩, rfl⟩ := h
  exact ⟨.array ⟨o, ho⟩ es ⟨c, hc⟩, rfl, by rw [Phrase.value, hes]; rfl⟩

lemma ofList_of_nodup {entries : List (String × Value)} (h : (entries.map Prod.fst).Nodup) :
    Entries.ofList entries = entries := by
  have hinsert : ∀ (key : String) (v : Value) (es : Entries Value), key ∉ es.map Prod.fst →
      es.insert key v = es ++ [(key, v)] := by
    intro key v es hkey
    induction es with
    | nil => rfl
    | cons e es ih =>
      rw [List.map_cons, List.mem_cons, not_or] at hkey
      rw [Entries.insert, if_neg (Ne.symm hkey.1), ih hkey.2]
      rfl
  have key : ∀ es : Entries Value, ((es ++ entries).map Prod.fst).Nodup →
      entries.foldl (fun es p => es.insert p.1 p.2) es = es ++ entries := by
    clear h
    induction entries with
    | nil => simp
    | cons e entries ih =>
      intro es hes
      have hnew : e.1 ∉ es.map Prod.fst := by
        rw [List.map_append, List.nodup_append] at hes
        exact fun he => hes.2.2 e.1 he e.1 (by simp) rfl
      rw [List.foldl_cons, hinsert e.1 e.2 es hnew, ih _ (by simpa using hes)]
      simp
  exact key [] h

lemma means_dict {w w' : List Char} {entries : List (String × Value)}
    (h : Both (Single (.start .dict) w) (Both (MeansEntries entries) (Single (.stop .dict) w'))
      ts) :
    Means (.dict (Entries.ofList entries)) ts := by
  obtain ⟨us, vs, ⟨o, ho, -, rfl⟩, ⟨us', vs', ⟨ms, rfl, hms⟩, ⟨c, hc, -, rfl⟩, rfl⟩, rfl⟩ := h
  exact ⟨.dict ⟨o, ho⟩ ms ⟨c, hc⟩, rfl, by rw [Phrase.value, hms]; rfl⟩

lemma means_dict_of_nodup {w w' : List Char} {entries : List (String × Value)}
    (hkeys : (entries.map Prod.fst).Nodup)
    (h : Both (Single (.start .dict) w) (Both (MeansEntries entries) (Single (.stop .dict) w'))
      ts) :
    Means (.dict entries) ts := by
  have := means_dict h
  rwa [ofList_of_nodup hkeys] at this

lemma meansItems_nil : MeansItems [] [] := ⟨.nil, rfl, rfl⟩

lemma meansItems_last {v : Value} (h : Means v ts) : MeansItems [v] ts := by
  obtain ⟨p, rfl, hp⟩ := h
  exact ⟨.last p, rfl, by rw [Elements.values, hp]; rfl⟩

lemma meansItems_cons {v : Value} {items : List Value}
    (h : Both (Means v) (Both (Single (.skip .separator) [',']) (MeansItems items)) ts) :
    MeansItems (v :: items) ts := by
  obtain ⟨us, vs, ⟨p, rfl, hp⟩, ⟨us', vs', ⟨c, hc, hctext, rfl⟩, ⟨es, rfl, hes⟩, rfl⟩, rfl⟩ := h
  exact ⟨.cons p ⟨c, hc, hctext⟩ es, rfl, by rw [Elements.values, hp, hes]; rfl⟩

lemma meansEntries_nil : MeansEntries [] [] := ⟨.nil, rfl, rfl⟩

lemma meansEntries_cons {key : String} {v : Value} {entries : List (String × Value)}
    (h : Both (Single (.leaf .key) (keyText key.toList)) (Both (Single (.skip .equals) ['='])
      (Both (Means v) (Both (Single (.skip .separator) [';']) (MeansEntries entries)))) ts) :
    MeansEntries ((key, v) :: entries) ts := by
  obtain ⟨_, _, ⟨k, hk, hktext, rfl⟩, ⟨_, _, ⟨e, he, hetext, rfl⟩, ⟨_, _, ⟨p, rfl, hp⟩,
    ⟨_, _, ⟨s, hs, hstext, rfl⟩, ⟨ms, rfl, hms⟩, rfl⟩, rfl⟩, rfl⟩, rfl⟩ := h
  refine ⟨.cons ⟨k, hk⟩ ⟨e, he, hetext⟩ p ⟨s, hs, hstext⟩ ms, rfl, ?_⟩
  rw [Members.entries, hp, hms]
  show Except.ok ((keyName k.text, v) :: entries) = _
  rw [hktext, keyName_keyText]

/-! ### Scans that get stuck -/

/-- Every scan at the spot comes to a text where no value begins, by tokens with integers that
fit. -/
def Halts (x : Spot) : Prop :=
  ∀ s, Stands s x → ∃ es s' tails text, Pulls s es s' ∧ AllFit (skeleton es) ∧
    Stands s' ⟨"main", tails, text⟩ ∧ Stuck text

/-- A scan reads on to the second spot, or gets stuck on the way there. -/
def ReadsIf (b : Bool) (x : Spot) (P : List (Token Tag) → Prop) (y : Spot) : Prop :=
  match b with
  | true => Reads x P y
  | false => Halts x

lemma Reads.halts (h : Reads x P y) (h' : Halts y) : Halts x := by
  intro s hs
  obtain ⟨es, s', hpulls, -, hfit, hs'⟩ := h s hs
  obtain ⟨fs, s'', tails, text, hpulls', hfit', hs'', hstuck⟩ := h' s' hs'
  refine ⟨es ++ fs, s'', tails, text, hpulls.append hpulls', ?_, hs'', hstuck⟩
  rw [skeleton_append]
  exact allFit_append.2 ⟨hfit, hfit'⟩

lemma halts_of_stuck {text : List Char} (h : Stuck text) (tails : List String) :
    Halts ⟨"main", tails, text⟩ := fun s hs => ⟨[], s, tails, text, .nil s, allFit_nil, hs, h⟩

lemma ReadsIf.append (h : ReadsIf b x P y) (h' : ReadsIf c y Q z) :
    ReadsIf (b && c) x (Both P Q) z := by
  cases b with
  | false => exact h
  | true =>
    cases c with
    | false => exact Reads.halts h h'
    | true => exact Reads.append h h'

lemma Reads.append_if (h : Reads x P y) (h' : ReadsIf c y Q z) : ReadsIf c x (Both P Q) z :=
  ReadsIf.append (b := true) h h'

lemma ReadsIf.append_reads (h : ReadsIf b x P y) (h' : Reads y Q z) :
    ReadsIf b x (Both P Q) z := by
  have := h.append (c := true) h'
  rwa [Bool.and_true] at this

lemma ReadsIf.mono (h : ReadsIf b x P y) (hPQ : ∀ ts, P ts → Q ts) : ReadsIf b x Q y := by
  cases b with
  | false => exact h
  | true => exact Reads.mono h hPQ

lemma Reads.blank_if (h : Reads x Nothing y) (h' : ReadsIf c y P z) : ReadsIf c x P z := by
  cases c with
  | false => exact h.halts h'
  | true => exact h.after_blank h'

/-! ### Scalars -/

variable {rest : List Char}

lemma delimited_cons {c : Char} (hc : c ∈ [',', ';', ')', '\n']) (cs : List Char) :
    Delimited (c :: cs) := by
  intro d hd
  obtain rfl : c = d := by simpa using hd
  exact hc

lemma reads_integer (n : Int64) (tails : List String) (hrest : Delimited rest) :
    Reads ⟨"main", tails, Integer.write n ++ rest⟩ (Means (.integer n))
      ⟨after tails, tails, rest⟩ := by
  have hfits : Integer.Fits (Integer.signedValue 10 (Integer.write n)) := by
    rw [Integer.signedValue_write]
    exact ⟨n.minValue_le_toInt, n.toInt_le⟩
  have hread := Integer.read_write n
  obtain ⟨s, hs, hwrite⟩ := Integer.write_eq n
  rw [hwrite] at hfits hread ⊢
  refine (reads_digits (isSign_of_minus hs) Integer.isDigit_toDigits Nat.toDigits_ne_nil hfits
    hrest).mono
    fun ts hts => means_scalar (by decide) (fun t ht htext => ?_) hts
  have hkind : t.tag.kind = .int := by rw [ht]; rfl
  simp only [scalarValue, hkind, evaluator?, htext, intValue, String.toList_ofList, hread]

lemma reads_real {x : Binary64} (hx : x.isFinite = true) (tails : List String)
    (hrest : Delimited rest) :
    Reads ⟨"main", tails, realText x ++ rest⟩ (Means (.real x)) ⟨after tails, tails, rest⟩ := by
  rcases x with _ | _ | ⟨negative, rank⟩
  · cases hx
  · cases hx
  · obtain ⟨s, ds, es, hs, hds, hne, hes, hne', htext, hread⟩ :=
      RealFormat.read_finite realFormat (fun _ => rfl) negative rank
    rw [htext] at hread
    show Reads ⟨"main", tails, realFormat.finite negative rank ++ rest⟩ _ _
    rw [htext]
    refine (reads_point (isSign_of_minus hs) hds hne hes hne' hrest).mono
      fun ts hts => means_scalar (by decide) (fun t ht htext => ?_) hts
    have hkind : t.tag.kind = .float := by rw [ht]; rfl
    simp only [scalarValue, hkind, evaluator?, htext, floatValue, String.toList_ofList, hread]

lemma reads_bool (b : Bool) (tails : List String) (hrest : Delimited rest) :
    Reads ⟨"main", tails, (if b then ":true".toList else ":false".toList) ++ rest⟩
      (Means (.boolean b)) ⟨after tails, tails, rest⟩ := by
  refine (reads_boolean b hrest).mono
    fun ts hts => means_scalar (by decide) (fun t ht htext => ?_) hts
  have hkind : t.tag.kind = .bool := by rw [ht]; rfl
  simp only [scalarValue, hkind, evaluator?, htext]
  cases b <;> rfl

lemma reads_dateText {text : String} (h : isDate text.toList = true) (tails : List String)
    (rest : List Char) :
    Reads ⟨"main", tails, text.toList ++ rest⟩ (Means (.date text)) ⟨after tails, tails, rest⟩ := by
  refine (reads_date h tails rest).mono
    fun ts hts => means_scalar (by decide) (fun t ht htext => ?_) hts
  have hkind : t.tag.kind = .date := by rw [ht]; rfl
  simp only [scalarValue, hkind, evaluator?, htext, String.ofList_toList]

lemma reads_string (s : String) (tails : List String) (rest : List Char) :
    Reads ⟨"main", tails, stringText s.toList ++ rest⟩ (Means (.string s))
      ⟨after tails, tails, rest⟩ := by
  have htext : stringText s.toList ++ rest =
      '"' :: (s.toList.flatMap stringChar ++ '"' :: rest) := by
    simp [stringText]
  rw [htext]
  refine ((reads_openString tails _).append ((reads_parts s.toList tails rest).append
    (reads_closeString tails rest))).mono fun ts hts => ?_
  have := means_string hts
  rwa [String.ofList_toList] at this

lemma reads_data {chunks : List String} (h : ∀ chunk ∈ chunks, isChunk chunk.toList = true)
    (tails : List String) (rest : List Char) :
    Reads ⟨"main", tails, '<' :: dataText chunks ++ ['>'] ++ rest⟩ (Means (.data chunks))
      ⟨after tails, tails, rest⟩ := by
  have htext :
      '<' :: dataText chunks ++ ['>'] ++ rest = '<' :: (dataText chunks ++ '>' :: rest) := by
    simp
  rw [htext]
  exact ((reads_openData tails _).append ((reads_chunks h).append
    (reads_closeData tails rest))).mono fun ts hts => means_data hts

end ScanTree.PropertyList
