import Mathlib.Tactic.Ring
import ScanTree.Number.Binary64

/-!
The number nearest to a decimal depends on the value of the decimal only, and a decimal that is a
number reads as that number.
-/

namespace ScanTree.Binary64

lemma unit_eq : unit = 2 ^ 1074 := by decide +kernel

lemma unit_pos : 0 < unit := by
  rw [unit_eq]
  exact pow_pos (by omega) 1074

lemma binade_pos : 0 < binade := Nat.pow_pos (by omega)

/-! ### Scaling -/

lemma roundDiv_mul {k : Nat} (hk : 0 < k) (a b : Nat) :
    roundDiv (k * a) (k * b) = roundDiv a b := by
  have hdiv : k * a / (k * b) = a / b := Nat.mul_div_mul_left a b hk
  have hmod : 2 * (k * a % (k * b)) = k * (2 * (a % b)) := by
    rw [Nat.mul_mod_mul_left]
    ring
  have hlow : 2 * (k * a % (k * b)) < k * b ↔ 2 * (a % b) < b := by
    rw [hmod, Nat.mul_lt_mul_left hk]
  have hhigh : k * b < 2 * (k * a % (k * b)) ↔ b < 2 * (a % b) := by
    rw [hmod, Nat.mul_lt_mul_left hk]
  simp only [roundDiv, hdiv, hlow, hhigh]

lemma nearestRank_mul {k : Nat} (hk : 0 < k) (num den : Nat) :
    nearestRank (k * num) (k * den) = nearestRank num den := by
  have hquot : k * num * unit / (k * den) = num * unit / den := by
    rw [Nat.mul_assoc, Nat.mul_div_mul_left _ _ hk]
  simp only [nearestRank, hquot]
  rw [Nat.mul_assoc k num, Nat.mul_assoc k den, roundDiv_mul hk]

/-! ### Exact numbers -/

lemma log2_size (rank : Nat) : Nat.log2 (size rank) - 52 = rank / binade - 1 := by
  have hbinade : binade = 2 ^ 52 := rfl
  by_cases hr : rank < binade
  · have hquot : rank / binade = 0 := Nat.div_eq_of_lt hr
    have hsize : size rank = rank := by
      simp only [size, hquot]
      show (rank - 0 * binade) * 1 = rank
      omega
    rw [hsize, hquot]
    by_cases hzero : rank = 0
    · rw [hzero]
      decide
    · have := (Nat.log2_lt hzero (k := 52)).2 (by omega)
      omega
  · obtain ⟨q, hq⟩ : ∃ q, rank / binade = q + 1 :=
      Nat.exists_eq_add_one_of_ne_zero (Nat.ne_of_gt (Nat.div_pos (Nat.not_lt.1 hr) binade_pos))
    have hlow : (q + 1) * binade ≤ rank := hq ▸ Nat.div_mul_le_self rank binade
    have hhigh : rank < (q + 2) * binade := by
      have := Nat.lt_mul_div_succ rank binade_pos
      rwa [hq, Nat.mul_comm] at this
    have hsize : size rank = (rank - q * binade) * 2 ^ q := by
      simp only [size, hq, Nat.add_sub_cancel]
      rfl
    have hn : binade ≤ rank - q * binade ∧ rank - q * binade < 2 * binade := by
      rw [Nat.add_mul] at hlow hhigh
      omega
    have hpos : 0 < (rank - q * binade) * 2 ^ q :=
      Nat.mul_pos (by omega) (Nat.pow_pos (by omega))
    have hlog : Nat.log2 (size rank) = 52 + q := by
      rw [hsize, Nat.log2_eq_iff (Nat.ne_of_gt hpos)]
      refine ⟨?_, ?_⟩
      · rw [Nat.pow_add, ← hbinade]
        exact Nat.mul_le_mul_right _ hn.1
      · rw [show 52 + q + 1 = 53 + q by omega, Nat.pow_add, show 2 ^ 53 = 2 * binade from rfl]
        exact Nat.mul_lt_mul_of_pos_right hn.2 (Nat.pow_pos (by omega))
    omega

lemma nearestRank_size (rank : Nat) : nearestRank (size rank) unit = rank := by
  have hquot : size rank * unit / unit = size rank := Nat.mul_div_cancel _ unit_pos
  have hround : ∀ n k, 0 < k → roundDiv (n * k) k = n := by
    intro n k hk
    have hmod : n * k % k = 0 := Nat.mul_mod_left n k
    simp only [roundDiv, hmod, Nat.mul_div_cancel n hk]
    rw [if_pos hk]
  have hsize : size rank = (rank - (rank / binade - 1) * binade) * Nat.pow 2 (rank / binade - 1) :=
    rfl
  have hpow : 0 < Nat.pow 2 (rank / binade - 1) := Nat.two_pow_pos _
  have hle : (rank / binade - 1) * binade ≤ rank :=
    Nat.le_trans (Nat.mul_le_mul_right _ (Nat.sub_le _ _)) (Nat.div_mul_le_self rank binade)
  simp only [nearestRank, hquot, log2_size]
  rw [Nat.mul_comm (size rank), roundDiv_mul unit_pos, hsize,
    hround _ _ hpow, Nat.sub_add_cancel hle]

/-! ### Out of range -/

lemma nearestRank_of_small {num den : Nat} (h : 2 * (num * unit) < den) :
    nearestRank num den = 0 := by
  have hlt : num * unit < den := by omega
  have hquot : num * unit / den = 0 := Nat.div_eq_of_lt hlt
  have hmod : num * unit % (den * 1) = num * unit := by rw [Nat.mul_one, Nat.mod_eq_of_lt hlt]
  have hlog : Nat.log2 0 - 52 = 0 := by decide
  simp only [nearestRank, hquot, hlog]
  show roundDiv (num * unit) (den * 1) + 0 * binade = 0
  unfold roundDiv
  rw [hmod, if_pos (by omega), Nat.mul_one, hquot, Nat.zero_mul]

lemma rankBound_le_nearestRank {num den : Nat} (hden : 0 < den) (h : den * 2 ^ 1025 ≤ num) :
    rankBound ≤ nearestRank num den := by
  have hquot : 2 ^ 2099 ≤ num * unit / den := by
    rw [Nat.le_div_iff_mul_le hden, unit_eq, show 2099 = 1025 + 1074 from rfl, pow_add,
      Nat.mul_right_comm, Nat.mul_comm _ den]
    exact Nat.mul_le_mul_right _ h
  have hbig : 0 < 2 ^ 2099 := pow_pos (by omega) 2099
  have hpos : num * unit / den ≠ 0 := by
    rintro hzero
    rw [hzero] at hquot
    exact hquot.not_gt hbig
  have hlog : ∀ k, 2 ^ k ≤ num * unit / den → k ≤ Nat.log2 (num * unit / den) :=
    fun k hk => (Nat.le_log2 hpos).2 hk
  have hlog := hlog 2099 hquot
  calc rankBound = 2047 * binade := rfl
    _ ≤ (Nat.log2 (num * unit / den) - 52) * binade := Nat.mul_le_mul_right _ (by omega)
    _ ≤ nearestRank num den := Nat.le_add_left _ _

lemma ofRank_of_le {negative : Bool} {rank : Nat} (h : rankBound ≤ rank) :
    ofRank negative rank = infinite negative := dif_neg (Nat.not_lt.2 h)

lemma lt_pow_length (n : Nat) : n < 10 ^ (Nat.toDigits 10 n).length :=
  (Nat.length_toDigits_le_iff (by omega) Nat.length_toDigits_pos).1 (Nat.le_refl _)

lemma pow_length_le {n : Nat} (hn : n ≠ 0) : 10 ^ ((Nat.toDigits 10 n).length - 1) ≤ n := by
  by_contra hlt
  have hpos := Nat.length_toDigits_pos (b := 10) (n := n)
  rcases Nat.eq_zero_or_pos ((Nat.toDigits 10 n).length - 1) with hzero | hk
  · rw [hzero] at hlt
    omega
  · have := (Nat.length_toDigits_le_iff (by omega) hk).2 (Nat.lt_of_not_le hlt)
    omega

lemma two_pow_lt : 2 ^ 1075 < 10 ^ 330 :=
  calc 2 ^ 1075 ≤ 2 ^ (23 * 47) := pow_le_pow_right₀ (by omega) (by omega)
    _ = (2 ^ 23) ^ 47 := pow_mul ..
    _ ≤ (10 ^ 7) ^ 47 := pow_le_pow_left₀ (by omega) (by omega) 47
    _ = 10 ^ (7 * 47) := (pow_mul ..).symm
    _ < 10 ^ 330 := pow_lt_pow_right₀ (by omega) (by omega)

/-- Few places before the point: the decimal is next to zero. -/
lemma decimalRank_of_small {m : Nat} {e : Int} (h : e + (Nat.toDigits 10 m).length < -330) :
    decimalRank m e = 0 := by
  have hpos := Nat.length_toDigits_pos (b := 10) (n := m)
  have hzero : e.toNat = 0 := by omega
  have hbound : 2 * unit < 10 ^ 330 := by
    have htwo : 2 * unit = 2 ^ 1075 := by rw [unit_eq, Nat.mul_comm, ← pow_succ]
    rw [htwo]
    exact two_pow_lt
  simp only [decimalRank, hzero]
  refine nearestRank_of_small ?_
  show 2 * (m * 1 * unit) < 10 ^ (-e).toNat
  calc 2 * (m * 1 * unit) = m * (2 * unit) := by ring
    _ ≤ 10 ^ (Nat.toDigits 10 m).length * (2 * unit) :=
      Nat.mul_le_mul_right _ (Nat.le_of_lt (lt_pow_length m))
    _ < 10 ^ (Nat.toDigits 10 m).length * 10 ^ 330 :=
      Nat.mul_lt_mul_of_pos_left hbound (Nat.pow_pos (by omega))
    _ = 10 ^ ((Nat.toDigits 10 m).length + 330) := (pow_add ..).symm
    _ ≤ 10 ^ (-e).toNat := Nat.pow_le_pow_right (by omega) (by omega)

/-- Many places before the point: the decimal exceeds the finite numbers. -/
lemma rankBound_le_decimalRank {m : Nat} {e : Int} (hm : m ≠ 0)
    (h : 330 < e + (Nat.toDigits 10 m).length) : rankBound ≤ decimalRank m e := by
  have hlen := pow_length_le hm
  have hbound : 2 ^ 1025 ≤ 10 ^ 330 :=
    Nat.le_trans (pow_le_pow_right₀ (by omega) (by omega)) (Nat.le_of_lt two_pow_lt)
  refine rankBound_le_nearestRank (Nat.pow_pos (by omega)) ?_
  show 10 ^ (-e).toNat * 2 ^ 1025 ≤ m * 10 ^ e.toNat
  calc 10 ^ (-e).toNat * 2 ^ 1025 ≤ 10 ^ (-e).toNat * 10 ^ 330 := Nat.mul_le_mul_left _ hbound
    _ = 10 ^ ((-e).toNat + 330) := (pow_add ..).symm
    _ ≤ 10 ^ ((Nat.toDigits 10 m).length - 1 + e.toNat) :=
      Nat.pow_le_pow_right (by omega) (by omega)
    _ = 10 ^ ((Nat.toDigits 10 m).length - 1) * 10 ^ e.toNat := Nat.pow_add ..
    _ ≤ m * 10 ^ e.toNat := Nat.mul_le_mul_right _ hlen

/-- **Decimals are read at their rank**, also where powers of ten are not computed. -/
theorem ofDecimal_eq (negative : Bool) (m : Nat) (e : Int) :
    ofDecimal negative m e = ofRank negative (decimalRank m e) := by
  unfold ofDecimal
  simp only
  split_ifs with hsmall hlarge
  · rcases hsmall with rfl | hsmall
    · have hden : 2 * (0 * Nat.pow 10 e.toNat * unit) < Nat.pow 10 (-e).toNat := by
        rw [Nat.zero_mul, Nat.zero_mul]
        exact Nat.pow_pos (by omega)
      rw [decimalRank, nearestRank_of_small hden]
    · rw [decimalRank_of_small hsmall]
  · rw [ofRank_of_le (rankBound_le_decimalRank (by tauto) hlarge)]
  · rfl

lemma decimalRank_shift (m n : Nat) :
    decimalRank (m * 10 ^ n * 10) (-1) = decimalRank m n := by
  have hpow : m * 10 ^ n * 10 * Nat.pow 10 (-1 : Int).toNat =
      10 * (m * Nat.pow 10 (n : Int).toNat) := by
    show m * 10 ^ n * 10 * 1 = 10 * (m * 10 ^ n)
    ring
  have hden : Nat.pow 10 (- -1 : Int).toNat = 10 * Nat.pow 10 (-(n : Int)).toNat := by
    rw [show (-(n : Int)).toNat = 0 by omega]
    rfl
  rw [decimalRank, decimalRank, hpow, hden, nearestRank_mul (by omega)]

end ScanTree.Binary64
