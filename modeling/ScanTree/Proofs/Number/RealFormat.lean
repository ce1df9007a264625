import ScanTree.Number.RealFormat
import ScanTree.Proofs.Number.Binary64
import ScanTree.Proofs.Number.Integer
import ScanTree.Proofs.Number.RealText

/-!
Real numbers that are written in place read back as they were.
-/

namespace ScanTree

namespace Binary64

lemma decimalRank_halves (m : Nat) {n u : Nat} {e : Int} (hu : u = 2 ^ n) (he : e = -n) :
    decimalRank (m * Nat.pow 5 n) e = nearestRank m u := by
  have hpow : Nat.pow 10 n = Nat.pow 5 n * u := by
    rw [hu]
    exact Nat.mul_pow 5 2 n
  have hzero : (-(n : Int)).toNat = 0 := by omega
  have hnum : m * Nat.pow 5 n * Nat.pow 10 0 = Nat.pow 5 n * m := by
    show m * Nat.pow 5 n * 1 = _
    rw [Nat.mul_one, Nat.mul_comm]
  have hpos : 0 < Nat.pow 5 n := Nat.pow_pos (by omega)
  rw [decimalRank, he, hzero, Int.neg_neg, Int.toNat_natCast, hnum, hpow, nearestRank_mul hpos]

/-- All digits of a number read as the number. -/
lemma rank_exactDecimal (rank : Nat) : (exactDecimal rank).rank = rank := by
  -- With a number for the exponent, powers of this size would be worked out.
  obtain ⟨n, hn⟩ : ∃ n, n = 1074 := ⟨_, rfl⟩
  have hunit : unit = 2 ^ n := by rw [hn, unit_eq]
  have hexponent : (-1074 : Int) = -(n : Int) := by rw [hn]; rfl
  unfold exactDecimal Decimal.rank
  rw [← hn, decimalRank_halves (size rank) hunit hexponent, nearestRank_size]

lemma rank_of_search {tie : Tie} {rank n : Nat} {exponent : Int} {d : Decimal}
    (h : search tie rank n exponent = some d) : d.rank = rank := by
  induction n generalizing exponent with
  | zero => cases h
  | succ n ih =>
    rw [search, Option.or_eq_some_iff] at h
    rcases h with h | ⟨-, h⟩
    · simpa using List.find?_some h
    · exact ih h

/-- **The shortest decimal** of a number reads as the number. -/
theorem rank_shortest (tie : Tie) (rank : Nat) : (shortest tie rank).rank = rank := by
  unfold shortest
  split_ifs with hzero
  · rw [hzero]
    decide +kernel
  · rcases hs : search tie rank 20 (coarsest rank) with _ | d
    · exact rank_exactDecimal rank
    · exact rank_of_search hs

end Binary64

namespace RealText

lemma natOfDigits_append (ds es : List Char) :
    natOfDigits (ds ++ es) =
      es.foldl (fun n c => n * 10 + (c.toNat - '0'.toNat)) (natOfDigits ds) :=
  List.foldl_append

lemma natOfDigits_toDigits (n : Nat) : natOfDigits (Nat.toDigits 10 n) = n := by
  have h : ∀ ds : List Char, ∀ m, ds.foldl (fun n c => n * 10 + (c.toNat - '0'.toNat)) m =
      Nat.ofDigitChars 10 ds m := by
    intro ds
    induction ds with
    | nil => intro m; simp
    | cons c ds ih =>
      intro m
      rw [List.foldl_cons, ih, Nat.ofDigitChars_cons, Nat.mul_comm]
  rw [natOfDigits, h, Nat.ofDigitChars_ten_toDigits]

lemma foldl_zeros (m n : Nat) : (List.replicate n '0').foldl
    (fun n c => n * 10 + (c.toNat - '0'.toNat)) m = m * 10 ^ n := by
  induction n generalizing m with
  | zero => simp
  | succ n ih =>
    rw [List.replicate_succ, List.foldl_cons, ih]
    show (m * 10 + 0) * 10 ^ n = m * 10 ^ (n + 1)
    ring

lemma natOfDigits_zeros (n : Nat) : natOfDigits (List.replicate n '0') = 0 := by
  rw [natOfDigits, foldl_zeros, Nat.zero_mul]

end RealText

namespace RealFormat

open Binary64 RealText

lemma allDigits_toDigits (n : Nat) : AllDigits (Nat.toDigits 10 n) := Integer.isDigit_toDigits

lemma allDigits_zeros (n : Nat) : AllDigits (List.replicate n '0') := by
  intro c hc
  rw [List.eq_of_mem_replicate hc]
  rfl

lemma allDigits_append {ds es : List Char} (hds : AllDigits ds) (hes : AllDigits es) :
    AllDigits (ds ++ es) := by
  intro c hc
  rcases List.mem_append.1 hc with hc | hc
  · exact hds c hc
  · exact hes c hc

/-- Digits before a point and behind it that together make a decimal. -/
structure Parts (d : Decimal) (ds es : List Char) : Prop where
  whole : AllDigits ds
  whole_ne : ds ≠ []
  fraction : AllDigits es
  fraction_ne : es ≠ []
  rank : decimalRank (natOfDigits (ds ++ es)) (-es.length) = d.rank

section Parts

variable {d : Decimal}

lemma parts_whole (h : 0 ≤ d.exponent) :
    Parts d (Nat.toDigits 10 d.significand ++ List.replicate d.exponent.toNat '0') ['0'] := by
  refine ⟨allDigits_append (allDigits_toDigits _) (allDigits_zeros _),
    List.append_ne_nil_of_left_ne_nil Nat.toDigits_ne_nil _, allDigits_zeros 1, by simp, ?_⟩
  have hvalue : natOfDigits (Nat.toDigits 10 d.significand ++
      List.replicate d.exponent.toNat '0' ++ ['0']) =
      d.significand * 10 ^ d.exponent.toNat * 10 := by
    rw [natOfDigits_append, natOfDigits_append, foldl_zeros, natOfDigits_toDigits]
    rfl
  rw [hvalue]
  show decimalRank _ (-1) = _
  rw [decimalRank_shift, Int.toNat_of_nonneg h]
  rfl

/-- The point stands `n` digits before the last one. -/
lemma parts_inside {n : Nat} (he : d.exponent = -n) (hn : 0 < n)
    (h : n < (Nat.toDigits 10 d.significand).length) :
    Parts d ((Nat.toDigits 10 d.significand).take ((Nat.toDigits 10 d.significand).length - n))
      ((Nat.toDigits 10 d.significand).drop ((Nat.toDigits 10 d.significand).length - n)) := by
  have hdigits := allDigits_toDigits d.significand
  refine ⟨fun c hc => hdigits c (List.mem_of_mem_take hc), ?_,
    fun c hc => hdigits c (List.mem_of_mem_drop hc), ?_, ?_⟩
  · rw [Ne, List.take_eq_nil_iff]
    rintro (hzero | hnil)
    · omega
    · exact Nat.toDigits_ne_nil hnil
  · rw [Ne, List.drop_eq_nil_iff]
    omega
  · rw [List.take_append_drop, natOfDigits_toDigits, List.length_drop, Nat.sub_sub_self h.le, ← he]
    rfl

/-- All digits stand behind the point, and zeros before them. -/
lemma parts_behind {n : Nat} (he : d.exponent = -n)
    (h : (Nat.toDigits 10 d.significand).length ≤ n) :
    Parts d ['0'] (List.replicate (n - (Nat.toDigits 10 d.significand).length) '0' ++
      Nat.toDigits 10 d.significand) := by
  refine ⟨allDigits_zeros 1, by simp,
    allDigits_append (allDigits_zeros _) (allDigits_toDigits _),
    List.append_ne_nil_of_right_ne_nil _ Nat.toDigits_ne_nil, ?_⟩
  rw [List.singleton_append, ← List.cons_append, ← List.replicate_succ, natOfDigits_append,
    natOfDigits_zeros, List.length_append, List.length_replicate, Nat.sub_add_cancel h, ← he]
  exact congrArg (decimalRank · d.exponent) (natOfDigits_toDigits d.significand)

/-- In place, a decimal is its digits with a point in them. -/
lemma placed_eq (d : Decimal) : ∃ ds es, Parts d ds es ∧ placed d = ds ++ '.' :: es := by
  unfold placed
  simp only
  split_ifs with hwhole hinside
  · exact ⟨_, _, parts_whole hwhole, rfl⟩
  · exact ⟨_, _, parts_inside (by omega) (by omega) hinside, rfl⟩
  · exact ⟨_, _, parts_behind (by omega) (by omega), rfl⟩

end Parts

/-- **Written in place**, a finite number is a sign or none, digits, a point and digits, and reads
as the number. -/
theorem read_finite (format : RealFormat) (hplace : ∀ e, format.inPlace e = true) (negative : Bool)
    (rank : Fin rankBound) : ∃ s ds es, (s = [] ∨ s = ['-']) ∧ AllDigits ds ∧ ds ≠ [] ∧
      AllDigits es ∧ es ≠ [] ∧ format.finite negative rank = s ++ (ds ++ '.' :: es) ∧
        RealText.read (format.finite negative rank) = .ok (.finite negative rank) := by
  obtain ⟨ds, es, ⟨hds, hne, hes, hne', hrank⟩, hplaced⟩ := placed_eq (shortest format.tie rank)
  have htext : format.decimal (shortest format.tie rank) = ds ++ '.' :: es := by
    rw [decimal, if_pos (hplace _), hplaced]
  have hvalue : ∀ sign, ofDecimal sign (natOfDigits (ds ++ es)) (-es.length) =
      .finite sign rank := by
    intro sign
    rw [ofDecimal_eq, hrank, rank_shortest, ofRank, dif_pos rank.isLt]
  obtain ⟨hplain, hminus, -⟩ := read_placed hds hes hne'
  cases negative with
  | false =>
    have hfinite : format.finite false rank = ds ++ '.' :: es := by simp [finite, htext]
    exact ⟨[], ds, es, .inl rfl, hds, hne, hes, hne', hfinite, by rw [hfinite, hplain, hvalue]⟩
  | true =>
    have hfinite : format.finite true rank = '-' :: (ds ++ '.' :: es) := by simp [finite, htext]
    exact ⟨['-'], ds, es, .inr rfl, hds, hne, hes, hne', hfinite, by rw [hfinite, hminus, hvalue]⟩

end RealFormat

end ScanTree
