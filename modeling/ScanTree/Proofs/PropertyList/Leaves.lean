import ScanTree.Proofs.Number.Integer
import ScanTree.Proofs.Number.RealText
import ScanTree.Proofs.PropertyList.Phrases

/-!
Leaves that are well spelled have a value, unless they are integers that are too large.
-/

namespace ScanTree.PropertyList

/-- The number that a token is a literal of, if it is one of an integer. -/
def numeral? (t : Token Tag) : Option Int :=
  if t.tag = .leaf .int then some (Integer.signedValue 10 t.text.toList)
  else if t.tag = .leaf .hexInt then some (Integer.signedValue 16 (hexDigits t.text.toList))
  else none

/-- A literal of an integer fits in 64 bits. -/
def LiteralFits (t : Token Tag) : Prop := ∀ n, numeral? t = some n → Integer.Fits n

def AllFit (ts : List (Token Tag)) : Prop := ∀ t ∈ ts, LiteralFits t

lemma allFit_append {ts us : List (Token Tag)} :
    AllFit (ts ++ us) ↔ AllFit ts ∧ AllFit us := List.forall_mem_append

lemma literalFits_of_tag {t : Token Tag} {tag : Tag} (ht : t.tag = tag)
    (hint : tag ≠ .leaf .int) (hhex : tag ≠ .leaf .hexInt) : LiteralFits t := by
  intro n hn
  simp [numeral?, ht, hint, hhex] at hn

lemma allFit_cons {t : Token Tag} {tag : Tag} (ht : t.tag = tag) (hint : tag ≠ .leaf .int)
    (hhex : tag ≠ .leaf .hexInt) {ts : List (Token Tag)} : AllFit (t :: ts) ↔ AllFit ts := by
  rw [AllFit, List.forall_mem_cons]
  exact and_iff_right (literalFits_of_tag ht hint hhex)

lemma isNumeral_int {w : List Char} (h : WellSpelled .int w) : Integer.IsNumeral 10 w := by
  obtain ⟨s, ds, hs, hds, hne, rfl⟩ := h
  exact ⟨s, ds, hs, Integer.isDigits_of_isDigit hds, hne, rfl⟩

lemma digitValue?_of_isHexDigit {c : Char} (h : isHexDigit c = true) :
    (Integer.digitValue? 16 c).isSome = true :=
  forall_low (P := fun c => isHexDigit c = true → (Integer.digitValue? 16 c).isSome = true)
    (by decide) (low_of_isHexDigit h) h

lemma isNumeral_hexInt {w : List Char} (h : WellSpelled .hexInt w) :
    Integer.IsNumeral 16 (hexDigits w) := by
  obtain ⟨s, ds, hs, hds, hne, rfl⟩ := h
  have hdigits : Integer.IsDigits 16 ds := fun c hc => digitValue?_of_isHexDigit (hds c hc)
  rcases hs with rfl | rfl | rfl
  · exact ⟨[], ds, .inl rfl, hdigits, hne, rfl⟩
  · exact ⟨[], ds, .inl rfl, hdigits, hne, rfl⟩
  · exact ⟨['-'], ds, .inr (.inr rfl), hdigits, hne, rfl⟩

lemma intValue_iff {text : String} (h : WellSpelled .int text.toList) :
    (∃ v, intValue text = .ok v) ↔ Integer.Fits (Integer.signedValue 10 text.toList) := by
  obtain ⟨hok, herror⟩ := Integer.read_numeral (by omega) (isNumeral_int h)
  constructor
  · rintro ⟨v, hv⟩
    by_contra hfits
    simp [intValue, herror hfits] at hv
  · intro hfits
    exact ⟨_, by simp only [intValue, hok hfits]; rfl⟩

lemma hexIntValue_iff {text : String} (h : WellSpelled .hexInt text.toList) :
    (∃ v, hexIntValue text = .ok v) ↔
      Integer.Fits (Integer.signedValue 16 (hexDigits text.toList)) := by
  obtain ⟨hok, herror⟩ := Integer.read_numeral (by omega) (isNumeral_hexInt h)
  constructor
  · rintro ⟨v, hv⟩
    by_contra hfits
    simp [hexIntValue, herror hfits] at hv
  · intro hfits
    exact ⟨_, by simp only [hexIntValue, hok hfits]; rfl⟩

lemma floatValue_ok {text : String} (h : WellSpelled .float text.toList) :
    ∃ v, floatValue text = .ok v := by
  obtain ⟨s, ds, es, hs, hds, hes, hne, htext⟩ := h
  obtain ⟨hnone, hminus, hplus⟩ := RealText.read_placed hds hes hne
  rcases hs with rfl | rfl | rfl
  · exact ⟨_, by simp only [floatValue, htext, List.nil_append, hnone]; rfl⟩
  · exact ⟨_, by simp only [floatValue, htext, List.singleton_append, hplus]; rfl⟩
  · exact ⟨_, by simp only [floatValue, htext, List.singleton_append, hminus]; rfl⟩

lemma boolValue_ok {text : String} (h : WellSpelled .bool text.toList) :
    ∃ v, boolValue text = .ok v := by
  rcases h with h | h
  · obtain rfl := String.toList_inj.1 h
    exact ⟨.boolean true, rfl⟩
  · obtain rfl := String.toList_inj.1 h
    exact ⟨.boolean false, rfl⟩

lemma escapeChar?_isSome {w : List Char} (h : WellSpelled .escape w) :
    ∃ c, escapeChar? w = some c := by
  rcases h with rfl | ⟨c, rfl⟩
  · exact ⟨'\'', rfl⟩
  · unfold escapeChar?
    split
    · exact ⟨_, rfl⟩
    · exact ⟨_, rfl⟩
    · exact ⟨_, rfl⟩
    · exact ⟨_, rfl⟩
    · exact ⟨_, rfl⟩
    · exact ⟨_, rfl⟩
    · exact ⟨_, rfl⟩
    · rename_i hnone
      exact absurd rfl (hnone c [])

/-- **Leaves have values**: a leaf that is well spelled is refused only as an integer that does not
fit in 64 bits. -/
theorem leafItem_iff {t : Token Tag} {kind : Kind} (ht : t.tag = .leaf kind)
    (h : WellSpelled kind t.text.toList) : (∃ item, leafItem t = .ok item) ↔ LiteralFits t := by
  have hk : t.tag.kind = kind := by rw [ht]; rfl
  have hitem : (∃ item, leafItem t = .ok item) ↔
      ∀ f, evaluator? kind = some f → ∃ v, f t.text = .ok v := by
    rw [leafItem, hk]
    rcases evaluator? kind with _ | f
    · simp
    · rcases hv : f t.text with e | v <;> simp [hv]
  have hother : kind ≠ .int → kind ≠ .hexInt → LiteralFits t := by
    intro hint hhex n hn
    simp [numeral?, ht, Tag.leaf, hint, hhex] at hn
  rw [hitem]
  by_cases hint : kind = .int
  · subst hint
    simp [evaluator?, intValue_iff h, LiteralFits, numeral?, ht]
  · by_cases hhex : kind = .hexInt
    · subst hhex
      simp [evaluator?, hexIntValue_iff h, LiteralFits, numeral?, ht, Tag.leaf]
    · refine iff_of_true (fun f hf => ?_) (hother hint hhex)
      unfold evaluator? at hf
      split at hf <;> cases hf
      · exact ⟨_, rfl⟩
      · obtain ⟨c, hc⟩ := escapeChar?_isSome h
        exact ⟨_, by simp only [escapeValue, hc]; rfl⟩
      · exact ⟨_, keyValue_eq _⟩
      · exact absurd rfl hint
      · exact absurd rfl hhex
      · exact floatValue_ok h
      · exact boolValue_ok h

end ScanTree.PropertyList
