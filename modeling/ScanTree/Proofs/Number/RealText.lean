import Mathlib.Data.List.TakeDrop
import ScanTree.Number.RealText

/-!
Reading digits with a point among them.
-/

namespace ScanTree.RealText

def AllDigits (ds : List Char) : Prop := ∀ c ∈ ds, c.isDigit = true

lemma digits_append {ds rest : List Char} (hds : AllDigits ds)
    (hrest : ∀ c ∈ rest.head?, c.isDigit = false) : digits (ds ++ rest) = (ds, rest) := by
  rw [digits, List.span_eq_takeWhile_dropWhile]
  have hstop : rest.takeWhile Char.isDigit = [] ∧ rest.dropWhile Char.isDigit = rest := by
    rcases rest with _ | ⟨c, cs⟩
    · exact ⟨rfl, rfl⟩
    · have := hrest c rfl
      simp [this]
  rw [List.takeWhile_append_of_pos hds, List.dropWhile_append_of_pos hds, hstop.1, hstop.2,
    List.append_nil]

/-- **Reading in place**: digits, a point and digits are one decimal. -/
lemma number?_placed {ds es : List Char} (hds : AllDigits ds) (hes : AllDigits es) (hne : es ≠ [])
    (negative : Bool) :
    number? negative (ds ++ '.' :: es) =
      some (Binary64.ofDecimal negative (natOfDigits (ds ++ es)) (-es.length)) := by
  have hwhole : digits (ds ++ '.' :: es) = (ds, '.' :: es) :=
    digits_append hds fun c hc => by cases hc; rfl
  have hplaces : digits es = (es, []) := by
    have hend : ∀ c ∈ ([] : List Char).head?, c.isDigit = false := by simp
    have := digits_append hes hend
    rwa [List.append_nil] at this
  simp [number?, hwhole, hplaces, hne, exponent?]

lemma sign_of_ne {c : Char} {cs : List Char} (hminus : c ≠ '-') (hplus : c ≠ '+') :
    sign (c :: cs) = (false, c :: cs) := by
  unfold sign
  split
  · rename_i h; exact absurd (List.cons.inj h).1 hminus
  · rename_i h; exact absurd (List.cons.inj h).1 hplus
  · rfl

lemma sign_placed {ds es : List Char} (hds : AllDigits ds) :
    sign (ds ++ '.' :: es) = (false, ds ++ '.' :: es) := by
  rcases ds with _ | ⟨c, ds⟩
  · rfl
  · have hc := hds c List.mem_cons_self
    refine sign_of_ne ?_ ?_ <;> rintro rfl <;> simp at hc

lemma read_placed {ds es : List Char} (hds : AllDigits ds) (hes : AllDigits es) (hne : es ≠ []) :
    read (ds ++ '.' :: es) =
        .ok (Binary64.ofDecimal false (natOfDigits (ds ++ es)) (-es.length)) ∧
      read ('-' :: (ds ++ '.' :: es)) =
        .ok (Binary64.ofDecimal true (natOfDigits (ds ++ es)) (-es.length)) ∧
      read ('+' :: (ds ++ '.' :: es)) =
        .ok (Binary64.ofDecimal false (natOfDigits (ds ++ es)) (-es.length)) := by
  have hnil : ds ++ '.' :: es ≠ [] := by simp
  refine ⟨?_, ?_, ?_⟩
  · simp [read, sign_placed hds, number?_placed hds hes hne]
  · simp [read, sign, number?_placed hds hes hne]
  · simp [read, sign, number?_placed hds hes hne]

end ScanTree.RealText
