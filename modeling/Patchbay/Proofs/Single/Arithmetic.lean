import Patchbay.Proofs.Single.Rounding

/-! # Rounded quotients, products and integers

Division and multiplication round the exact result, and so does the conversion of an integer. -/

namespace Patchbay.Single

open Float.Model (Format UnpackedFloat totalExponent)
open Float.Model.UnpackedFloat (Sign Accuracy ExtendedMantissa accuracyOfFraction divCore
  decreaseExponent)

variable {format : Format} {m m₁ m₂ : ℕ} {e e₁ e₂ : ℤ}

/-! ## Quotients -/

/-- The remainder of a division says where the quotient is between two integers. -/
theorem Stands.quotient (a : ℕ) {b : ℕ} (hb : 0 < b) :
    Stands (.ofMantissaAndAccuracy (a / b) (accuracyOfFraction (a % b) b)) ((a : ℚ) / b) := by
  have hpos : (0 : ℚ) < b := by exact_mod_cast hb
  have hsplit : (a : ℚ) / b = (a / b : ℕ) + ((a % b : ℕ) : ℚ) / b := by
    rw [div_eq_iff hpos.ne', add_mul, div_mul_cancel₀ _ hpos.ne']
    exact_mod_cast (Nat.div_add_mod' a b).symm
  have hmod : ((a % b : ℕ) : ℚ) < b := by exact_mod_cast Nat.mod_lt a hb
  rw [hsplit]
  generalize a % b = r at hmod ⊢
  generalize a / b = q
  unfold accuracyOfFraction
  split
  next hr =>
    rw [hr, Nat.cast_zero, zero_div, add_zero]
    exact .exact q
  next hr =>
    have hr : (0 : ℚ) < r / b := div_pos (by exact_mod_cast Nat.pos_of_ne_zero hr) hpos
    have hlt : (r : ℚ) / b < 1 := (div_lt_one₀ hpos).mpr hmod
    cases hcompare : compare (2 * r) b with
    | lt =>
        have hhalf : (r : ℚ) / b < 1 / 2 := by
          have hcast : (2 * r : ℚ) < b := by exact_mod_cast Nat.compare_eq_lt.mp hcompare
          rw [div_lt_iff₀ hpos]
          linarith
        exact ⟨by change (q : ℚ) < _; linarith, by change _ < (q : ℚ) + _; linarith⟩
    | eq =>
        have hhalf : (r : ℚ) / b = 1 / 2 := by
          have hcast : (2 * r : ℚ) = b := by exact_mod_cast Nat.compare_eq_eq.mp hcompare
          rw [div_eq_iff hpos.ne']
          linarith
        change (q : ℚ) + r / b = q + 1 / 2
        rw [hhalf]
    | gt =>
        have hhalf : 1 / 2 < (r : ℚ) / b := by
          have hcast : (b : ℚ) < 2 * r := by exact_mod_cast Nat.compare_eq_gt.mp hcompare
          rw [lt_div_iff₀ hpos]
          linarith
        exact ⟨by change (q : ℚ) + _ < _; linarith, by change _ < (q : ℚ) + _; linarith⟩

/-- A quotient is computed to as many bits as the format has, or to its least place. -/
theorem fine_divCore (format : Format) (e₁ e₂ : ℤ) (hm₁ : 0 < m₁) (hm₂ : 0 < m₂) :
    Fine format (divCore format m₁ e₁ m₂ e₂).1 (divCore format m₁ e₁ m₂ e₂).2.1 := by
  simp only [divCore]
  generalize ht : min (e₁ - e₂)
    (format.targetExponent (totalExponent m₁ e₁ - totalExponent m₂ e₂)) = t
  by_cases hleast : t ≤ format.minExponent
  · exact .inr hleast
  · left
    have hshift : m₂.log2 + 1 + format.mantissaBitsWithoutImplicit ≤
        m₁.log2 + (e₁ - e₂ - t).toNat := by
      rw [Format.targetExponent, totalExponent, totalExponent, mantissaBits_eq] at ht
      omega
    rw [Nat.le_div_iff_mul_le hm₂, Nat.shiftLeft_eq]
    calc 2 ^ format.mantissaBitsWithoutImplicit * m₂
        ≤ 2 ^ format.mantissaBitsWithoutImplicit * 2 ^ (m₂.log2 + 1) :=
          Nat.mul_le_mul_left _ Nat.lt_log2_self.le
      _ = 2 ^ (m₂.log2 + 1 + format.mantissaBitsWithoutImplicit) := by
          rw [← Nat.pow_add, Nat.add_comm]
      _ ≤ 2 ^ (m₁.log2 + (e₁ - e₂ - t).toNat) := Nat.pow_le_pow_right Nat.two_pos hshift
      _ = 2 ^ m₁.log2 * 2 ^ (e₁ - e₂ - t).toNat := Nat.pow_add ..
      _ ≤ m₁ * 2 ^ (e₁ - e₂ - t).toNat :=
          Nat.mul_le_mul_right _ (Nat.log2_self_le hm₁.ne')

theorem div_rounds (format : Format) (e₁ e₂ : ℤ) (s₁ s₂ : Sign) (hm₁ : 0 < m₁) (hm₂ : 0 < m₂) :
    Rounds format (s₁ / s₂) ((m₁ * 2 ^ e₁) / (m₂ * 2 ^ e₂))
      (UnpackedFloat.div format (.finite s₁ m₁ e₁ hm₁) (.finite s₂ m₂ e₂ hm₂)) := by
  have hfine := fine_divCore format e₁ e₂ hm₁ hm₂
  simp only [divCore] at hfine
  generalize ht : min (e₁ - e₂)
    (format.targetExponent (totalExponent m₁ e₁ - totalExponent m₂ e₂)) = t at hfine
  have hround := roundWithAccuracy_rounds (s₁ / s₂) (Stands.quotient _ hm₂) hfine
  have hvalue : ((m₁ <<< (e₁ - e₂ - t).toNat : ℕ) : ℚ) / m₂ * 2 ^ t =
      (m₁ * 2 ^ e₁) / (m₂ * 2 ^ e₂) := by
    have hshift : (2 : ℚ) ^ (e₁ - e₂ - t).toNat * 2 ^ t * 2 ^ e₂ = 2 ^ e₁ := by
      rw [← zpow_natCast, ← zpow_add₀ two_ne_zero, ← zpow_add₀ two_ne_zero]
      congr 1
      omega
    rw [Nat.shiftLeft_eq, ← hshift]
    push_cast
    field_simp
  rw [hvalue] at hround
  subst ht
  exact hround

/-! ## Products -/

theorem mul_rounds (format : Format) (e₁ e₂ : ℤ) (s₁ s₂ : Sign) (hm₁ : 0 < m₁) (hm₂ : 0 < m₂)
    (h : Fine format (m₁ * m₂) (e₁ + e₂)) :
    Rounds format (s₁ * s₂) ((m₁ * 2 ^ e₁) * (m₂ * 2 ^ e₂))
      (UnpackedFloat.mul format (.finite s₁ m₁ e₁ hm₁) (.finite s₂ m₂ e₂ hm₂)) := by
  have hround := roundWithAccuracy_rounds (s₁ * s₂) (.exact (m₁ * m₂)) h
  have hvalue : ((m₁ * m₂ : ℕ) : ℚ) * 2 ^ (e₁ + e₂) = (m₁ * 2 ^ e₁) * (m₂ * 2 ^ e₂) := by
    rw [zpow_add₀ two_ne_zero]
    push_cast
    ring
  rw [hvalue] at hround
  exact hround

/-! ## Significands of any length -/

theorem round_rounds (format : Format) (sign : Sign) (e : ℤ) (hm : 0 < m) :
    Rounds format sign (m * 2 ^ e) (UnpackedFloat.round format sign m e) := by
  simp only [UnpackedFloat.round, decreaseExponent]
  generalize hk : (e - format.targetExponent (totalExponent m e)).toNat = k
  have hfine : Fine format (m <<< k) (e - k) := by
    by_cases hleast : e - (k : ℤ) ≤ format.minExponent
    · exact .inr hleast
    · left
      have hlong : format.mantissaBitsWithoutImplicit ≤ m.log2 + k := by
        rw [Format.targetExponent, totalExponent, mantissaBits_eq] at hk
        omega
      calc 2 ^ format.mantissaBitsWithoutImplicit ≤ 2 ^ (m.log2 + k) :=
            Nat.pow_le_pow_right Nat.two_pos hlong
        _ = 2 ^ m.log2 * 2 ^ k := Nat.pow_add ..
        _ ≤ m * 2 ^ k := Nat.mul_le_mul_right _ (Nat.log2_self_le hm.ne')
        _ = m <<< k := (Nat.shiftLeft_eq ..).symm
  have hround := roundWithAccuracy_rounds sign (.exact (m <<< k)) hfine
  have hvalue : ((m <<< k : ℕ) : ℚ) * 2 ^ (e - (k : ℤ)) = m * 2 ^ e := by
    rw [Nat.shiftLeft_eq, zpow_sub₀ two_ne_zero, zpow_natCast]
    push_cast
    field_simp
  rwa [hvalue] at hround

/-! ## Decimals -/

/-- A decimal is rounded once, from its exact value, unless it is far out of the format's range. -/
theorem ofScientific_rounds (format : Format) (hm : 0 < m) {scale : ℤ}
    (hlow : -(2 ^ format.exponentBits + (m.log2 : ℤ)) ≤ scale)
    (hhigh : scale ≤ 2 ^ format.exponentBits) :
    Rounds format .positive (m * 10 ^ scale) (UnpackedFloat.ofScientific format m scale) := by
  rw [UnpackedFloat.ofScientific, dif_neg hm.ne', if_neg (by omega), if_neg (by omega)]
  by_cases hscale : 0 ≤ scale
  · rw [if_pos hscale]
    obtain ⟨k, rfl⟩ := Int.eq_ofNat_of_zero_le hscale
    have hten : 0 < 10 ^ k := Nat.pow_pos (by decide)
    have hlong : 2 ^ format.mantissaBitsWithoutImplicit ≤ m <<< format.mantissaBits * 10 ^ k := by
      rw [Nat.shiftLeft_eq, two_pow_mantissaBits]
      calc 2 ^ format.mantissaBitsWithoutImplicit
          ≤ 2 * 2 ^ format.mantissaBitsWithoutImplicit := Nat.le_mul_of_pos_left _ Nat.two_pos
        _ ≤ m * (2 * 2 ^ format.mantissaBitsWithoutImplicit) := Nat.le_mul_of_pos_left _ hm
        _ ≤ m * (2 * 2 ^ format.mantissaBitsWithoutImplicit) * 10 ^ k :=
            Nat.le_mul_of_pos_right _ hten
    have hround := mul_rounds format (-format.mantissaBits) 0 .positive .positive
      (by rw [Nat.shiftLeft_eq]; positivity) hten (.inl hlong)
    have hvalue : ((m <<< format.mantissaBits : ℕ) : ℚ) * 2 ^ (-(format.mantissaBits : ℤ)) *
        (((10 ^ k : ℕ) : ℚ) * 2 ^ (0 : ℤ)) = m * 10 ^ (k : ℤ) := by
      rw [Nat.shiftLeft_eq, zpow_neg, zpow_natCast, zpow_natCast, zpow_zero]
      push_cast
      field_simp
    rw [hvalue] at hround
    exact hround
  · rw [if_neg hscale]
    have hten : 0 < 10 ^ (-scale).toNat := Nat.pow_pos (by decide)
    have hround := div_rounds format 0 0 .positive .positive hm hten
    have hpow : ((10 ^ (-scale).toNat : ℕ) : ℚ) = 10 ^ (-scale) := by
      push_cast
      rw [← zpow_natCast, Int.toNat_of_nonneg (by omega)]
    have hvalue : (m : ℚ) * 2 ^ (0 : ℤ) / (((10 ^ (-scale).toNat : ℕ) : ℚ) * 2 ^ (0 : ℤ)) =
        m * 10 ^ scale := by
      rw [hpow, zpow_zero, mul_one, mul_one, zpow_neg, div_inv_eq_mul]
    rw [hvalue] at hround
    exact hround

end Patchbay.Single
