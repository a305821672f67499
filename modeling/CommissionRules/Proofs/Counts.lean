import CommissionRules.Number.Rounding
import CommissionRules.Proofs.Equality

/-!
# Counts as numbers

The number of a count is no NaN, and it is positive if the count is (`Number.position_ofNat_pos`).
Up to 2^53 a count is exact, so that different counts have different numbers
(`Number.ofNat_equal_iff`); above, two counts may be rounded to the same number.
-/

namespace CommissionRules.Number

variable {n : Nat}

/-- A count over the power of two that leaves it 53 bits before the point. -/
def scaledCount (n : Nat) : Nat × Nat := scaleDown n 1 (n.log2 - 52)

theorem scaledCount_of_le (h : 52 ≤ n.log2) : scaledCount n = (n, 2 ^ (n.log2 - 52)) := by
  have hplace : ((n.log2 : Int) - 52).toNat = n.log2 - 52 := by omega
  rw [scaledCount, scaleDown, if_pos (by omega), hplace, Nat.one_mul]
  rfl

theorem scaledCount_of_lt (h : n.log2 < 52) : scaledCount n = (n * 2 ^ (52 - n.log2), 1) := by
  have hplace : (-((n.log2 : Int) - 52)).toNat = 52 - n.log2 := by omega
  rw [scaledCount, scaleDown, if_neg (by omega), hplace]
  rfl

theorem scaledCount_ge (h : 0 < n) : 2 ^ 52 ≤ (scaledCount n).1 / (scaledCount n).2 := by
  have hlog := Nat.log2_self_le (Nat.ne_of_gt h)
  rcases Nat.lt_or_ge n.log2 52 with hlt | hge
  · rw [scaledCount_of_lt hlt, Nat.div_one]
    calc 2 ^ 52 = 2 ^ n.log2 * 2 ^ (52 - n.log2) := by rw [← Nat.pow_add]; congr 1; omega
      _ ≤ n * 2 ^ (52 - n.log2) := Nat.mul_le_mul_right _ hlog
  · rw [scaledCount_of_le hge, Nat.le_div_iff_mul_le (Nat.two_pow_pos _)]
    calc 2 ^ 52 * 2 ^ (n.log2 - 52) = 2 ^ n.log2 := by rw [← Nat.pow_add]; congr 1; omega
      _ ≤ n := hlog

theorem lastPlace_one (h : 0 < n) : lastPlace n 1 = (n.log2 : Int) - 52 := by
  have hscaled := scaledCount_ge h
  rw [scaledCount] at hscaled
  have hlog : (n.log2 : Int) - (Nat.log2 1 : Nat) - 52 = (n.log2 : Int) - 52 := by
    rw [show Nat.log2 1 = 0 from rfl]
    omega
  rw [lastPlace, hlog]
  dsimp only
  rw [if_neg (by omega)]
  omega

/-- The bits of the number nearest to a positive count, as long as it is finite. -/
def countPattern (n : Nat) : Nat :=
  (n.log2 + 1022) * 2 ^ 52 + roundHalfEven (scaledCount n).1 (scaledCount n).2

theorem ofNat_of_pos (h : 0 < n) :
    ofNat n = ⟨(min (countPattern n) 0x7ff0000000000000).toUInt64⟩ := by
  have hplace : ((n.log2 : Int) - 52 + 1074).toNat = n.log2 + 1022 := by omega
  rw [ofNat, ofRatio, if_neg (Nat.ne_of_gt h), lastPlace_one h]
  dsimp only
  rw [hplace]
  rfl

theorem magnitude_of_pattern {pattern : Nat} (h : pattern ≤ 0x7ff0000000000000) :
    (⟨pattern.toUInt64⟩ : Number).magnitude.toNat = pattern := by
  rw [magnitude_toNat, Nat.toUInt64_eq, UInt64.toNat_ofNat']
  omega

theorem not_signed_of_pattern {pattern : Nat} (h : pattern ≤ 0x7ff0000000000000) :
    (⟨pattern.toUInt64⟩ : Number).signed = false := by
  rw [signed, decide_eq_false_iff_not, UInt64.le_iff_toNat_le, Nat.toUInt64_eq,
    UInt64.toNat_ofNat', Nat.not_le, Nat.mod_eq_of_lt (by omega)]
  exact Nat.lt_of_le_of_lt h (by decide)

theorem position_of_pattern {pattern : Nat} (h : pattern ≤ 0x7ff0000000000000) :
    (⟨pattern.toUInt64⟩ : Number).isNaN = false ∧
      (⟨pattern.toUInt64⟩ : Number).position = pattern := by
  have hmagnitude := magnitude_of_pattern h
  refine ⟨not_isNaN_iff.mpr (by rw [hmagnitude]; exact h), ?_⟩
  rw [position, not_signed_of_pattern h, hmagnitude]
  rfl

theorem not_isNaN_ofNat (n : Nat) : (ofNat n).isNaN = false := by
  rcases Nat.eq_zero_or_pos n with rfl | h
  · rfl
  · rw [ofNat_of_pos h]
    exact (position_of_pattern (Nat.min_le_right _ _)).1

theorem position_ofNat_pos (h : 0 < n) : 0 < (ofNat n).position := by
  have hpattern : 0 < countPattern n := by
    rw [countPattern]
    omega
  rw [ofNat_of_pos h, (position_of_pattern (Nat.min_le_right _ _)).2]
  omega

/-! ## Exact counts -/

theorem roundHalfEven_one (q : Nat) : roundHalfEven q 1 = q := by
  have hup : (2 * 0 > 1 || (2 * 0 == 1 && q % 2 == 1)) = false := rfl
  rw [roundHalfEven, Nat.div_one, Nat.mod_one, hup]
  rfl

/-- A count up to 2^53 is scaled without a remainder. -/
theorem exists_scaledCount (h : 0 < n) (hle : n ≤ 2 ^ 53) :
    ∃ q, 2 ^ 52 ≤ q ∧ q < 2 ^ 53 ∧ q * 2 ^ n.log2 = n * 2 ^ 52 ∧
      roundHalfEven (scaledCount n).1 (scaledCount n).2 = q := by
  have hlow := Nat.log2_self_le (Nat.ne_of_gt h)
  have hhigh := Nat.lt_log2_self (n := n)
  rcases Nat.lt_or_ge n.log2 52 with hlt | hge
  · have hpow : 2 ^ (52 - n.log2) * 2 ^ n.log2 = 2 ^ 52 := by
      rw [← Nat.pow_add]
      congr 1
      omega
    refine ⟨n * 2 ^ (52 - n.log2), ?_, ?_, by rw [Nat.mul_assoc, hpow], ?_⟩
    · rw [← hpow, Nat.mul_comm]
      exact Nat.mul_le_mul_right _ hlow
    · have hpos := Nat.two_pow_pos (52 - n.log2)
      calc n * 2 ^ (52 - n.log2) < 2 ^ (n.log2 + 1) * 2 ^ (52 - n.log2) :=
            (Nat.mul_lt_mul_right hpos).mpr hhigh
        _ = 2 ^ 53 := by rw [← Nat.pow_add]; congr 1; omega
    · rw [scaledCount_of_lt hlt]
      exact roundHalfEven_one _
  · have hlog : n.log2 = 52 ∨ n.log2 = 53 := by
      have hlt : n.log2 < 54 := (Nat.log2_lt (Nat.ne_of_gt h)).mpr (by omega)
      omega
    rcases hlog with hlog | hlog
    · rw [hlog] at hlow hhigh
      refine ⟨n, hlow, hhigh, by rw [hlog], ?_⟩
      rw [scaledCount_of_le hge, hlog]
      exact roundHalfEven_one n
    · rw [hlog] at hlow
      obtain rfl : n = 2 ^ 53 := Nat.le_antisymm hle hlow
      exact ⟨2 ^ 52, by decide, by decide, by rw [hlog, Nat.mul_comm], by decide +kernel⟩

/-- Different counts up to 2^53 have different numbers. -/
theorem eq_of_position_ofNat_eq {m n : Nat} (hm : m ≤ 2 ^ 53) (hn : n ≤ 2 ^ 53)
    (h : (ofNat m).position = (ofNat n).position) : m = n := by
  rcases Nat.eq_zero_or_pos m with rfl | hm'
  · rcases Nat.eq_zero_or_pos n with rfl | hn'
    · rfl
    · have hpos := position_ofNat_pos hn'
      rw [← h] at hpos
      exact absurd hpos (by decide)
  · rcases Nat.eq_zero_or_pos n with rfl | hn'
    · have hpos := position_ofNat_pos hm'
      rw [h] at hpos
      exact absurd hpos (by decide)
    · obtain ⟨p, hplow, hphigh, hp, hpround⟩ := exists_scaledCount hm' hm
      obtain ⟨q, hqlow, hqhigh, hq, hqround⟩ := exists_scaledCount hn' hn
      rw [ofNat_of_pos hm', ofNat_of_pos hn', (position_of_pattern (Nat.min_le_right _ _)).2,
        (position_of_pattern (Nat.min_le_right _ _)).2, countPattern, countPattern, hpround,
        hqround] at h
      have hlogm : m.log2 < 54 := (Nat.log2_lt (Nat.ne_of_gt hm')).mpr (by omega)
      have hlogn : n.log2 < 54 := (Nat.log2_lt (Nat.ne_of_gt hn')).mpr (by omega)
      have hlog : m.log2 = n.log2 := by omega
      have hpq : p = q := by omega
      rw [hpq, hlog, hq] at hp
      omega

theorem ofNat_equal_iff {m n : Nat} (hm : m ≤ 2 ^ 53) (hn : n ≤ 2 ^ 53) :
    (ofNat m).equal (ofNat n) = true ↔ m = n := by
  rw [equal_iff_position]
  constructor
  · intro h
    exact eq_of_position_ofNat_eq hm hn h.2.2
  · rintro rfl
    exact ⟨not_isNaN_ofNat m, not_isNaN_ofNat m, rfl⟩

end CommissionRules.Number
