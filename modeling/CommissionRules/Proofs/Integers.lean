import CommissionRules.Proofs.Counts

/-!
# Integers as numbers

The magnitude of a finite number is a count of units, the least positive numbers: `Number.units`.
Different magnitudes are different counts.  An integer up to 2^53 is exact, and dropping the
fraction of its number gives it back (`Number.toInt64_ofInt`).  Conversely a number without a
fraction is the number of the integer that it is converted to, and its negation that of the opposite
integer, where the conversion does not run out of its range (`Number.ofInt_toInt64_equal`,
`Number.toInt64_neg`).
-/

namespace CommissionRules.Number

variable {a b : Number} {n : Nat} {k : Int}

/-! ## Units -/

/-- The magnitude of a finite number over that of the least positive one, which is `2 ^ -1074`. -/
def units (a : Number) : Nat := a.significand * 2 ^ (a.exponent + 1074).toNat

theorem exponent_ge (a : Number) : -1074 ≤ a.exponent := by
  unfold exponent
  split
  · exact Int.le_refl _
  · next h =>
    rw [UInt64.lt_iff_toNat_lt, Nat.not_lt] at h
    have hlarge : 0x10000000000000 ≤ a.magnitude.toNat := h
    omega

theorem units_of_lt (h : a.magnitude.toNat < 2 ^ 52) : a.units = a.magnitude.toNat := by
  have hsmall : a.magnitude < 0x10000000000000 := UInt64.lt_iff_toNat_lt.mpr h
  have hplace : (-1074 + 1074 : Int).toNat = 0 := rfl
  rw [units, significand, exponent, if_pos hsmall, if_pos hsmall, hplace, Nat.pow_zero,
    Nat.mul_one]
  exact Nat.mod_eq_of_lt h

/-- The bits of a normal number are those of its exponent and its significand together. -/
theorem units_of_magnitude {e q : Nat} (h : a.magnitude.toNat = e * 2 ^ 52 + q) (hlow : 2 ^ 52 ≤ q)
    (hhigh : q < 2 ^ 53) : a.units = q * 2 ^ e := by
  have hlarge : ¬ a.magnitude < 0x10000000000000 := by
    rw [UInt64.lt_iff_toNat_lt, Nat.not_lt, h]
    exact Nat.le_trans hlow (Nat.le_add_left _ _)
  have hsignificand : (e * 2 ^ 52 + q) % 0x10000000000000 + 0x10000000000000 = q := by omega
  have hexponent : (((e * 2 ^ 52 + q) / 0x10000000000000 : Nat) - 1075 + 1074 : Int).toNat = e := by
    omega
  rw [units, significand, exponent, if_neg hlarge, if_neg hlarge, h, hsignificand, hexponent]

theorem units_congr (h : a.magnitude.toNat = b.magnitude.toNat) : a.units = b.units := by
  have hmagnitude : a.magnitude = b.magnitude := UInt64.toNat_inj.mp h
  rw [units, units, significand, significand, exponent, exponent, hmagnitude]

theorem exists_magnitude (h : 2 ^ 52 ≤ a.magnitude.toNat) : ∃ e q,
    a.magnitude.toNat = e * 2 ^ 52 + q ∧ 2 ^ 52 ≤ q ∧ q < 2 ^ 53 :=
  ⟨a.magnitude.toNat / 2 ^ 52 - 1, a.magnitude.toNat % 2 ^ 52 + 2 ^ 52, by omega, by omega,
    by omega⟩

/-- A greater exponent outweighs every significand. -/
theorem units_lt (h : a.magnitude.toNat < b.magnitude.toNat) : a.units < b.units := by
  rcases Nat.lt_or_ge b.magnitude.toNat (2 ^ 52) with hb | hb
  · rw [units_of_lt hb, units_of_lt (Nat.lt_trans h hb)]
    exact h
  · obtain ⟨e', q', hb', hlow', hhigh'⟩ := exists_magnitude hb
    rw [units_of_magnitude hb' hlow' hhigh']
    rcases Nat.lt_or_ge a.magnitude.toNat (2 ^ 52) with ha | ha
    · rw [units_of_lt ha]
      exact Nat.lt_of_lt_of_le ha
        (Nat.le_trans hlow' (Nat.le_mul_of_pos_right q' (Nat.two_pow_pos e')))
    · obtain ⟨e, q, ha', hlow, hhigh⟩ := exists_magnitude ha
      rw [units_of_magnitude ha' hlow hhigh]
      rw [ha', hb'] at h
      rcases Nat.lt_or_ge e e' with he | he
      · calc q * 2 ^ e < 2 ^ 53 * 2 ^ e := (Nat.mul_lt_mul_right (Nat.two_pow_pos e)).mpr hhigh
          _ = 2 ^ 52 * 2 ^ (e + 1) := by rw [Nat.pow_succ 2 e]; omega
          _ ≤ q' * 2 ^ e' := Nat.mul_le_mul hlow' (Nat.pow_le_pow_right (by decide) he)
      · have he' : e = e' := by omega
        subst he'
        exact (Nat.mul_lt_mul_right (Nat.two_pow_pos e)).mpr (by omega)

theorem magnitude_eq_of_units (h : a.units = b.units) :
    a.magnitude.toNat = b.magnitude.toNat := by
  rcases Nat.lt_trichotomy a.magnitude.toNat b.magnitude.toNat with hlt | heq | hgt
  · exact absurd h (Nat.ne_of_lt (units_lt hlt))
  · exact heq
  · exact absurd h (Nat.ne_of_gt (units_lt hgt))

/-! ## Whole numbers -/

/-- How many units make one. -/
def unitsPerOne : Nat := 2 ^ 1074

theorem two_pow_mul_two_pow {m n : Nat} (h : m + n = 1074) : 2 ^ m * 2 ^ n = unitsPerOne :=
  (Nat.pow_add 2 m n).symm.trans (congrArg (2 ^ ·) h)

theorem mul_two_pow_of_scaled {q e places : Nat} (h : q * 2 ^ e = n * 2 ^ 52)
    (hplaces : 52 + places = 1074) : q * 2 ^ (e + places) = n * unitsPerOne := by
  rw [Nat.pow_add, ← Nat.mul_assoc, h, Nat.mul_assoc, two_pow_mul_two_pow hplaces]

/-- With a negative exponent the units are a multiple of the fraction's denominator, and otherwise
there is no fraction. -/
theorem units_eq_mul (a : Number) : ∃ scale, 0 < scale ∧ unitsPerOne = a.ulps * scale ∧
    a.units = a.significand * Nat.pow 2 a.exponent.toNat * scale := by
  have hge := a.exponent_ge
  refine ⟨2 ^ (1074 - (-a.exponent).toNat), Nat.two_pow_pos _, ?_, ?_⟩
  · exact (two_pow_mul_two_pow (by omega)).symm
  · show _ = a.significand * 2 ^ a.exponent.toNat * _
    rw [units, Nat.mul_assoc, ← Nat.pow_add]
    congr 2
    omega

theorem floorMagnitude_eq (a : Number) : a.floorMagnitude = a.units / unitsPerOne := by
  obtain ⟨scale, hpos, hone, hunits⟩ := a.units_eq_mul
  rw [floorMagnitude, hone, hunits, Nat.mul_div_mul_right _ _ hpos]

theorem units_of_isWhole (h : a.isWhole = true) : a.units = a.floorMagnitude * unitsPerOne := by
  obtain ⟨scale, -, hone, hunits⟩ := a.units_eq_mul
  rw [isWhole, Bool.and_eq_true, beq_iff_eq] at h
  have hdvd : a.ulps ∣ a.significand * Nat.pow 2 a.exponent.toNat :=
    Nat.dvd_mul_right_of_dvd (Nat.dvd_of_mod_eq_zero h.2) _
  rw [floorMagnitude, hone, hunits, ← Nat.mul_assoc, Nat.div_mul_cancel hdvd]

theorem isFinite_iff : a.isFinite = true ↔ a.magnitude.toNat < 0x7ff0000000000000 := by
  rw [isFinite, decide_eq_true_iff, UInt64.lt_iff_toNat_lt]
  rfl

theorem not_isNaN_of_isFinite (h : a.isFinite = true) : a.isNaN = false :=
  not_isNaN_iff.mpr (Nat.le_of_lt (isFinite_iff.mp h))

/-- The integer part of a finite number is kept, if it is far from the end of the range. -/
theorem toInt64_eq_truncate (h : a.isFinite = true) (hrange : a.floorMagnitude ≤ 2 ^ 53) :
    a.toInt64 = a.truncate := by
  have hnan : ¬ a.isNaN = true := Bool.eq_false_iff.mp (not_isNaN_of_isFinite h)
  rw [toInt64, if_neg hnan, if_pos h, truncate]
  split <;> omega

/-- An integer far from the ends of the range is no integer that another one was moved to. -/
theorem truncate_of_toInt64 (h : a.isFinite = true) (hk : a.toInt64 = k)
    (hrange : k.natAbs ≤ 2 ^ 53) : a.truncate = k := by
  have hnan : ¬ a.isNaN = true := Bool.eq_false_iff.mp (not_isNaN_of_isFinite h)
  rw [toInt64, if_neg hnan, if_pos h] at hk
  omega

theorem floorMagnitude_of_truncate (h : a.truncate = k) : a.floorMagnitude = k.natAbs := by
  rw [truncate] at h
  split at h <;> omega

/-! ## Integers -/

theorem withSign_bits {magnitude : UInt64} (h : magnitude.toNat < 2 ^ 63) (negative : Bool) :
    (withSign negative magnitude).signed = negative ∧
      (withSign negative magnitude).magnitude.toNat = magnitude.toNat := by
  have hbits : (withSign negative magnitude).bits.toNat =
      magnitude.toNat + if negative then 2 ^ 63 else 0 := by
    cases negative with
    | false => rfl
    | true =>
      show (magnitude ||| 0x8000000000000000).toNat = _
      rw [UInt64.toNat_or, Nat.or_comm]
      have hor := Nat.two_pow_add_eq_or_of_lt h 1
      rw [Nat.mul_one] at hor
      exact hor.symm.trans (Nat.add_comm _ _)
  have hmagnitude : (withSign negative magnitude).magnitude.toNat = magnitude.toNat := by
    rw [magnitude_toNat, hbits]
    split <;> omega
  refine ⟨?_, hmagnitude⟩
  have hsigned := (withSign negative magnitude).bits_toNat
  rw [hmagnitude, hbits] at hsigned
  cases negative <;> cases h : (withSign _ magnitude).signed <;> simp_all

theorem ofRatio_eq_withSign (negative : Bool) (num den : Nat) :
    ofRatio negative num den = withSign negative (ofRatio false num den).bits := by
  unfold ofRatio
  split <;> rfl

/-- A count up to 2^53 is exact. -/
theorem ofNat_exact (h : n ≤ 2 ^ 53) :
    (ofNat n).isFinite = true ∧ (ofNat n).units = n * unitsPerOne := by
  rcases Nat.eq_zero_or_pos n with rfl | hpos
  · exact ⟨rfl, (units_of_lt (by decide)).trans (Nat.zero_mul _).symm⟩
  · obtain ⟨q, hlow, hhigh, hq, hround⟩ := exists_scaledCount hpos h
    have hlog : n.log2 < 54 := (Nat.log2_lt (Nat.ne_of_gt hpos)).mpr (by omega)
    have hpattern : countPattern n = (n.log2 + 1022) * 2 ^ 52 + q := by
      rw [countPattern, hround]
    have hmagnitude : (ofNat n).magnitude.toNat = (n.log2 + 1022) * 2 ^ 52 + q := by
      rw [ofNat_of_pos hpos, magnitude_of_pattern (Nat.min_le_right _ _), hpattern]
      omega
    refine ⟨isFinite_iff.mpr (by omega), ?_⟩
    exact (units_of_magnitude hmagnitude hlow hhigh).trans (mul_two_pow_of_scaled hq rfl)

theorem ofInt_exact (h : k.natAbs ≤ 2 ^ 53) : (ofInt k).isFinite = true ∧
    (ofInt k).signed = decide (k < 0) ∧ (ofInt k).units = k.natAbs * unitsPerOne := by
  obtain ⟨hfinite, hunits⟩ := ofNat_exact h
  have hunsigned : (ofNat k.natAbs).signed = false := by
    rcases Nat.eq_zero_or_pos k.natAbs with hzero | hpos
    · rw [hzero]
      rfl
    · rw [ofNat_of_pos hpos]
      exact not_signed_of_pattern (Nat.min_le_right _ _)
  have hbits : (ofNat k.natAbs).bits.toNat = (ofNat k.natAbs).magnitude.toNat := by
    rw [bits_toNat, hunsigned]
    rfl
  have hlt := isFinite_iff.mp hfinite
  rw [ofInt, ofRatio_eq_withSign]
  obtain ⟨hsigned, hmagnitude⟩ :=
    withSign_bits (show (ofNat k.natAbs).bits.toNat < 2 ^ 63 by omega) (decide (k < 0))
  rw [hbits] at hmagnitude
  exact ⟨isFinite_iff.mpr (hmagnitude ▸ hlt), hsigned, (units_congr hmagnitude).trans hunits⟩

/-- Dropping the fraction of an integer's number gives the integer back. -/
theorem toInt64_ofInt (h : k.natAbs ≤ 2 ^ 53) : (ofInt k).toInt64 = k := by
  obtain ⟨hfinite, hsigned, hunits⟩ := ofInt_exact h
  have hfloor : (ofInt k).floorMagnitude = k.natAbs := by
    rw [floorMagnitude_eq, hunits, unitsPerOne, Nat.mul_div_cancel _ (Nat.two_pow_pos 1074)]
  rw [toInt64_eq_truncate hfinite (hfloor ▸ h), truncate, hfloor, hsigned]
  by_cases hk : k < 0
  · rw [if_pos (decide_eq_true hk)]
    omega
  · rw [if_neg (by simpa using hk)]
    omega

/-- A number without a fraction is that of its integer. -/
theorem ofInt_toInt64_equal (hwhole : a.isWhole = true) (hk : a.toInt64.natAbs ≤ 2 ^ 53) :
    (ofInt a.toInt64).equal a = true := by
  have hfinite := (Bool.and_eq_true_iff.mp hwhole).1
  have htruncate := truncate_of_toInt64 hfinite rfl hk
  obtain ⟨hfinite', hsigned, hunits⟩ := ofInt_exact hk
  have hmagnitude : (ofInt a.toInt64).magnitude.toNat = a.magnitude.toNat := by
    refine magnitude_eq_of_units ?_
    rw [hunits, units_of_isWhole hwhole, floorMagnitude_of_truncate htruncate]
  refine equal_iff_position.mpr
    ⟨not_isNaN_of_isFinite hfinite', not_isNaN_of_isFinite hfinite, ?_⟩
  have hzero : a.toInt64 = 0 → a.magnitude.toNat = 0 := by
    intro hzero
    rw [← hmagnitude, hzero]
    rfl
  have hsign := htruncate
  rw [truncate] at hsign
  rw [position, position, hmagnitude, hsigned]
  split <;> split <;> simp_all <;> omega

/-! ## Negation -/

theorem signed_eq (a : Number) : a.signed = decide (a.bits.toNat / 2 ^ 63 = 1) := by
  have hlt := a.bits.toNat_lt
  have hiff : 2 ^ 63 ≤ a.bits.toNat ↔ a.bits.toNat / 2 ^ 63 = 1 := by omega
  exact decide_eq_decide.mpr (UInt64.le_iff_toNat_le.trans hiff)

theorem magnitude_neg (a : Number) : a.neg.magnitude.toNat = a.magnitude.toNat := by
  have hbits : a.neg.bits.toNat = a.bits.toNat ^^^ 2 ^ 63 := UInt64.toNat_xor _ _
  rw [magnitude_toNat, magnitude_toNat, hbits, Nat.xor_mod_two_pow, Nat.mod_self, Nat.xor_zero]

theorem signed_neg (a : Number) : a.neg.signed = !a.signed := by
  have hbits : a.neg.bits.toNat = a.bits.toNat ^^^ 2 ^ 63 := UInt64.toNat_xor _ _
  have hlt := a.bits.toNat_lt
  have htop : a.bits.toNat / 2 ^ 63 = 0 ∨ a.bits.toNat / 2 ^ 63 = 1 := by omega
  rw [signed_eq, signed_eq, hbits, Nat.xor_div_two_pow, Nat.div_self (Nat.two_pow_pos 63)]
  rcases htop with htop | htop <;> rw [htop] <;> rfl

theorem toInt64_neg (h : a.isFinite = true) (hk : a.toInt64.natAbs ≤ 2 ^ 53) :
    a.neg.toInt64 = -a.toInt64 := by
  have hmagnitude := a.magnitude_neg
  have htruncate := truncate_of_toInt64 h rfl hk
  have hfloor : a.neg.floorMagnitude = a.floorMagnitude := by
    rw [floorMagnitude_eq, floorMagnitude_eq, units_congr hmagnitude]
  have hfinite : a.neg.isFinite = true := isFinite_iff.mpr (hmagnitude ▸ isFinite_iff.mp h)
  have hsmall : a.floorMagnitude ≤ 2 ^ 53 := floorMagnitude_of_truncate htruncate ▸ hk
  rw [toInt64_eq_truncate hfinite (hfloor ▸ hsmall), ← htruncate, truncate, truncate, hfloor,
    signed_neg]
  cases a.signed <;> simp

end CommissionRules.Number
