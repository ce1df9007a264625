import Mathlib.Data.List.Basic
import ScanTree.Number.Integer

/-!
Reading an integer gives its value exactly when that fits in 64 bits.
-/

namespace ScanTree.Integer

/-- The value of digits, from the value of those before them on. -/
def magnitudeFrom (radix : Nat) (n : Nat) (ds : List Char) : Nat :=
  ds.foldl (fun n c => n * radix + (digitValue? radix c).getD 0) n

def magnitude (radix : Nat) (ds : List Char) : Nat := magnitudeFrom radix 0 ds

/-- The value of digits with at most one sign before them. -/
def signedValue (radix : Nat) : List Char → Int
  | '-' :: ds => -(magnitude radix ds : Int)
  | '+' :: ds => magnitude radix ds
  | ds => magnitude radix ds

def Fits (n : Int) : Prop := Int64.minValue.toInt ≤ n ∧ n ≤ Int64.maxValue.toInt

instance (n : Int) : Decidable (Fits n) := inferInstanceAs (Decidable (_ ∧ _))

def IsDigits (radix : Nat) (ds : List Char) : Prop :=
  ∀ c ∈ ds, (digitValue? radix c).isSome = true

def withSign (negative : Bool) (m : Nat) : Int := if negative then -(m : Int) else m

variable {radix : Nat} {negative : Bool}

lemma le_magnitudeFrom (h : 1 ≤ radix) (m : Nat) (ds : List Char) :
    m ≤ magnitudeFrom radix m ds := by
  induction ds generalizing m with
  | nil => exact Nat.le_refl m
  | cons c ds ih =>
    refine Nat.le_trans ?_ (ih _)
    calc m = m * 1 := (Nat.mul_one m).symm
      _ ≤ m * radix := Nat.mul_le_mul_left m h
      _ ≤ m * radix + _ := Nat.le_add_right _ _

lemma fits_of_le {m n : Nat} (hle : m ≤ n) (h : Fits (withSign negative n)) :
    Fits (withSign negative m) := by
  have hmin : Int64.minValue.toInt ≤ 0 := by decide
  have hmax : 0 ≤ Int64.maxValue.toInt := by decide
  obtain ⟨hlow, hhigh⟩ := h
  unfold withSign at *
  constructor <;> split_ifs at * <;> omega

lemma next_eq (m d : Nat) :
    (if negative then withSign negative m * radix - d else withSign negative m * radix + d) =
      withSign negative (m * radix + d) := by
  cases negative with
  | false => simp [withSign]
  | true =>
    show -(m : Int) * radix - d = -((m * radix + d : Nat) : Int)
    rw [Int.neg_mul, Int.natCast_add, Int.natCast_mul]
    omega

lemma IsDigits.head_tail {c : Char} {ds : List Char} (h : IsDigits radix (c :: ds)) :
    (∃ d, digitValue? radix c = some d) ∧ IsDigits radix ds := by
  obtain ⟨hc, hds⟩ := List.forall_mem_cons.1 h
  exact ⟨Option.isSome_iff_exists.1 hc, hds⟩

lemma magnitudeFrom_cons {c : Char} {d : Nat} (hd : digitValue? radix c = some d) (m : Nat)
    (ds : List Char) :
    magnitudeFrom radix m (c :: ds) = magnitudeFrom radix (m * radix + d) ds := by
  simp [magnitudeFrom, hd]

lemma accumulate_of_fits (hradix : 1 ≤ radix) {ds : List Char} (hds : IsDigits radix ds) {m : Nat}
    (h : Fits (withSign negative (magnitudeFrom radix m ds))) :
    accumulate radix negative (withSign negative m) ds =
      .ok (withSign negative (magnitudeFrom radix m ds)) := by
  induction ds generalizing m with
  | nil => rfl
  | cons c ds ih =>
    obtain ⟨⟨d, hd⟩, hrest⟩ := hds.head_tail
    rw [magnitudeFrom_cons hd] at h ⊢
    have hfits := fits_of_le (le_magnitudeFrom hradix (m * radix + d) ds) h
    simp only [accumulate, hd, next_eq]
    rw [if_neg (Int.not_lt.2 hfits.2), if_neg (Int.not_lt.2 hfits.1), ih hrest h]

lemma fits_zero : Fits (withSign negative 0) := by
  cases negative <;> decide

def outside (n : Int) : IntegerError := if n < 0 then .tooSmall else .tooLarge

lemma outside_eq {m : Nat} (h : ¬ Fits (withSign negative m)) :
    outside (withSign negative m) = if negative then .tooSmall else .tooLarge := by
  have hpos : 0 < m := by
    by_contra hzero
    obtain rfl : m = 0 := by omega
    exact h fits_zero
  unfold outside withSign
  cases negative
  · rw [if_neg (by simp)]
    rfl
  · rw [if_pos (by simpa using hpos)]
    rfl

/-- Digits whose value does not fit are refused at the first of them that leaves the range. -/
lemma accumulate_of_not_fits {ds : List Char} (hds : IsDigits radix ds) {m : Nat}
    (hm : Fits (withSign negative m)) (h : ¬ Fits (withSign negative (magnitudeFrom radix m ds))) :
    accumulate radix negative (withSign negative m) ds =
      .error (if negative then .tooSmall else .tooLarge) := by
  induction ds generalizing m with
  | nil => exact absurd hm h
  | cons c ds ih =>
    obtain ⟨⟨d, hd⟩, hrest⟩ := hds.head_tail
    have hmin : Int64.minValue.toInt ≤ 0 := by decide
    have hmax : 0 ≤ Int64.maxValue.toInt := by decide
    rw [magnitudeFrom_cons hd] at h
    simp only [accumulate, hd, next_eq]
    by_cases hhigh : Int64.maxValue.toInt < withSign negative (m * radix + d)
    · have hsign : negative = false := by
        cases negative
        · rfl
        · simp only [withSign, if_true] at hhigh
          omega
      rw [if_pos hhigh, hsign]
      rfl
    · by_cases hlow : withSign negative (m * radix + d) < Int64.minValue.toInt
      · have hsign : negative = true := by
          cases negative
          · simp only [withSign, Bool.false_eq_true, if_false] at hlow
            omega
          · rfl
        rw [if_neg hhigh, if_pos hlow, hsign]
        rfl
      · rw [if_neg hhigh, if_neg hlow]
        exact ih hrest ⟨Int.not_lt.1 hlow, Int.not_lt.1 hhigh⟩ h

/-- **Reading digits** succeeds exactly if their value fits. -/
lemma accumulate_iff (negative : Bool) (hradix : 1 ≤ radix) {ds : List Char}
    (hds : IsDigits radix ds) :
    (Fits (withSign negative (magnitude radix ds)) →
      accumulate radix negative 0 ds = .ok (withSign negative (magnitude radix ds))) ∧
    (¬ Fits (withSign negative (magnitude radix ds)) →
      accumulate radix negative 0 ds =
        .error (outside (withSign negative (magnitude radix ds)))) := by
  have hzero : withSign negative 0 = 0 := by cases negative <;> rfl
  refine ⟨fun h => ?_, fun h => ?_⟩
  · have := accumulate_of_fits (m := 0) hradix hds h
    rwa [hzero] at this
  · have := accumulate_of_not_fits (m := 0) hds fits_zero h
    rwa [hzero, ← outside_eq h] at this

/-- Digits with at most one sign before them. -/
def IsNumeral (radix : Nat) (text : List Char) : Prop :=
  ∃ s ds, (s = [] ∨ s = ['+'] ∨ s = ['-']) ∧ IsDigits radix ds ∧ ds ≠ [] ∧ text = s ++ ds

lemma ne_sign_of_isDigits {c : Char} {ds : List Char} (h : IsDigits radix (c :: ds)) :
    c ≠ '+' ∧ c ≠ '-' := by
  have hc := h c List.mem_cons_self
  constructor <;> rintro rfl <;> simp [digitValue?] at hc

lemma signedValue_of_isDigits {c : Char} {ds : List Char} (h : IsDigits radix (c :: ds)) :
    signedValue radix (c :: ds) = magnitude radix (c :: ds) := by
  have hsign := ne_sign_of_isDigits h
  unfold signedValue
  split
  · rename_i h; exact absurd (List.cons.inj h).1 hsign.2
  · rename_i h; exact absurd (List.cons.inj h).1 hsign.1
  · rfl

/-- **Reading a numeral** gives its value exactly if that fits in 64 bits. -/
theorem read_numeral (hradix : 1 ≤ radix) {text : List Char}
    (h : IsNumeral radix text) :
    (Fits (signedValue radix text) → read radix text = .ok (Int64.ofInt (signedValue radix text))) ∧
    (¬ Fits (signedValue radix text) →
      read radix text = .error (outside (signedValue radix text))) := by
  obtain ⟨s, ds, hs, hds, hne, rfl⟩ := h
  obtain ⟨c, rest, rfl⟩ := List.exists_cons_of_ne_nil hne
  have hsign := ne_sign_of_isDigits hds
  have key : ∀ negative, read radix (s ++ c :: rest) =
        Int64.ofInt <$> accumulate radix negative 0 (c :: rest) →
      signedValue radix (s ++ c :: rest) = withSign negative (magnitude radix (c :: rest)) →
      (Fits (signedValue radix (s ++ c :: rest)) →
        read radix (s ++ c :: rest) = .ok (Int64.ofInt (signedValue radix (s ++ c :: rest)))) ∧
      (¬ Fits (signedValue radix (s ++ c :: rest)) → read radix (s ++ c :: rest) =
        .error (outside (signedValue radix (s ++ c :: rest)))) := by
    intro negative hread hvalue
    obtain ⟨hok, herror⟩ := accumulate_iff negative hradix hds
    rw [hread, hvalue]
    exact ⟨fun hfits => by rw [hok hfits]; rfl, fun hfits => by rw [herror hfits]; rfl⟩
  rcases hs with rfl | rfl | rfl
  · refine key false ?_ ?_
    · rcases rest with _ | ⟨d, rest⟩
      · simp [read, hsign]
      · show read radix (c :: d :: rest) = _
        unfold read
        split
        · rename_i h; cases h
        · rename_i h; cases h
        · rename_i h; exact absurd (List.cons.inj h).1 hsign.1
        · rename_i h; exact absurd (List.cons.inj h).1 hsign.2
        · rfl
    · exact signedValue_of_isDigits hds
  · exact key false rfl rfl
  · exact key true rfl rfl

/-! ### Writing -/

lemma digitValue?_of_isDigit {c : Char} (h : c.isDigit = true) :
    digitValue? 10 c = some (c.toNat - '0'.toNat) := by
  simp only [Char.isDigit, Bool.and_eq_true, decide_eq_true_eq] at h
  have h0 : '0' ≤ c ∧ c ≤ '9' := h
  have hlt : c.toNat - '0'.toNat < 10 := by
    have h9 : c.toNat ≤ 57 := h0.2
    show c.toNat - 48 < 10
    omega
  simpa [digitValue?, h0] using hlt

lemma isDigits_of_isDigit {ds : List Char} (h : ∀ c ∈ ds, c.isDigit = true) : IsDigits 10 ds :=
  fun c hc => by rw [digitValue?_of_isDigit (h c hc)]; rfl

lemma magnitudeFrom_eq_ofDigitChars {ds : List Char} (h : ∀ c ∈ ds, c.isDigit = true) (n : Nat) :
    magnitudeFrom 10 n ds = Nat.ofDigitChars 10 ds n := by
  induction ds generalizing n with
  | nil => simp [magnitudeFrom]
  | cons c ds ih =>
    have hc := digitValue?_of_isDigit (h c List.mem_cons_self)
    rw [Nat.ofDigitChars_cons, ← ih fun x hx => h x (List.mem_cons_of_mem _ hx)]
    simp [magnitudeFrom, hc, Nat.mul_comm]

lemma isDigit_toDigits {n : Nat} : ∀ c ∈ Nat.toDigits 10 n, c.isDigit = true :=
  fun _ hc => Nat.isDigit_of_mem_toDigits (by omega) (by omega) hc

lemma magnitude_toDigits (n : Nat) : magnitude 10 (Nat.toDigits 10 n) = n := by
  rw [magnitude, magnitudeFrom_eq_ofDigitChars isDigit_toDigits, Nat.ofDigitChars_ten_toDigits]

lemma write_eq (n : Int64) : ∃ s, (s = [] ∨ s = ['-']) ∧
    write n = s ++ Nat.toDigits 10 n.toInt.natAbs := by
  unfold write
  by_cases h : n.toInt < 0
  · exact ⟨['-'], .inr rfl, by simp [h]⟩
  · exact ⟨[], .inl rfl, by simp [h]⟩

lemma signedValue_write (n : Int64) : signedValue 10 (write n) = n.toInt := by
  have hdigits : IsDigits 10 (Nat.toDigits 10 n.toInt.natAbs) :=
    isDigits_of_isDigit isDigit_toDigits
  have hmagnitude := magnitude_toDigits n.toInt.natAbs
  unfold write
  by_cases h : n.toInt < 0
  · simp only [h, if_true, signedValue, hmagnitude]
    omega
  · simp only [h, if_false]
    have hvalue : signedValue 10 (Nat.toDigits 10 n.toInt.natAbs) =
        magnitude 10 (Nat.toDigits 10 n.toInt.natAbs) := by
      obtain ⟨c, rest, hc⟩ := List.exists_cons_of_ne_nil
        (Nat.toDigits_ne_nil (n := n.toInt.natAbs) (b := 10))
      rw [hc] at hdigits ⊢
      exact signedValue_of_isDigits hdigits
    rw [hvalue, hmagnitude]
    omega

lemma isNumeral_write (n : Int64) : IsNumeral 10 (write n) := by
  obtain ⟨s, hs, hwrite⟩ := write_eq n
  refine ⟨s, _, ?_, isDigits_of_isDigit isDigit_toDigits, Nat.toDigits_ne_nil, hwrite⟩
  rcases hs with rfl | rfl
  · exact .inl rfl
  · exact .inr (.inr rfl)

/-- **Integers read back** as they were written. -/
theorem read_write (n : Int64) : read 10 (write n) = .ok n := by
  have hfits : Fits (signedValue 10 (write n)) := by
    rw [signedValue_write]
    exact ⟨n.minValue_le_toInt, n.toInt_le⟩
  rw [(read_numeral (by omega) (isNumeral_write n)).1 hfits, signedValue_write, Int64.ofInt_toInt]

end ScanTree.Integer
