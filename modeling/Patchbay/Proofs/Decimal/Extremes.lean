import Mathlib.Tactic.IntervalCases
import Patchbay.Proofs.Decimal.ReadBack

/-! # Very large and very small literals

A literal is read as the number nearest to its exact value.  From half a place above the largest
number on that is infinity, and up to half of the smallest number it is zero, however many digits a
literal has and however far its exponent goes. -/

namespace Patchbay

open Float.Model (Format UnpackedFloat)
open Float.Model.UnpackedFloat (Sign)

namespace Single

variable {sign : Sign} {q : ℚ} {u : UnpackedFloat} {x : Float32} {m n k : ℕ} {e : ℤ}

/-! ## Beyond the range -/

theorem Rounds.overflow (h : Rounds .binary32 sign q u) (hq : 2 ^ 128 - 2 ^ 103 ≤ q) :
    packed u = packed (.infinity sign) := by
  obtain ⟨m, e, hm, he, rfl⟩ : ∃ m e, 0 < m ∧ 104 < e ∧ u = scaled sign m e := by
    by_cases hbelow : q < 2 ^ 128
    · have hround : Rounds .binary32 sign q (scaled sign (2 ^ 23) 105) := by
        refine .of_below_two_pow (by decide) ?_ ?_ sign
        · change (2 : ℚ) ^ 23 - 1 / 4 ≤ q / 2 ^ (105 : ℤ)
          rw [le_div_iff₀ (by positivity)]
          norm_num at hq ⊢
          linarith
        · change q / 2 ^ (105 : ℤ) < 2 ^ 23
          rw [div_lt_iff₀ (by positivity)]
          norm_num at hbelow ⊢
          linarith
      exact ⟨2 ^ 23, 105, by decide, by decide, h.unique hround⟩
    · have hbound : Canonical .binary32 (2 ^ 23) 105 := ⟨by decide, by decide, .inr (by decide)⟩
      obtain ⟨m, e, hcanonical, hu, hge⟩ := h.ge hbound (by norm_num at hbelow ⊢; linarith)
      have hleast : Format.binary32.minExponent = -149 := by decide
      have he : 104 < e := by omega
      have hfull : 2 ^ 23 ≤ m := hcanonical.full.resolve_left (by omega)
      exact ⟨m, e, by omega, he, hu⟩
  rw [scaled_of_pos hm, packed_overflow hm he]

theorem Rounds.underflow (h : Rounds .binary32 sign q u) (hpos : 0 < q)
    (hq : q ≤ 2 ^ (-150 : ℤ)) : u = .zero sign := by
  have hcanonical : Canonical .binary32 0 (-149) := ⟨by decide, by decide, .inl (by decide)⟩
  have hhalf : q / 2 ^ (-149 : ℤ) ≤ 1 / 2 := by
    rw [div_le_iff₀ (by positivity)]
    norm_num at hq ⊢
    exact hq
  have hquotient : 0 < q / 2 ^ (-149 : ℤ) := by positivity
  have hnearest : IsNearest (q / 2 ^ (-149 : ℤ)) 0 :=
    ⟨by rw [Nat.cast_zero]; linarith, by rw [Nat.cast_zero]; linarith, fun _ => rfl⟩
  exact h.unique (.of_isNearest hcanonical hnearest (fun h => absurd h (by decide)) sign)

/-- More than half of the smallest number is not rounded to zero. -/
theorem Rounds.ne_zero (h : Rounds .binary32 sign q u) (hlow : 2 ^ (-150 : ℤ) < q) :
    u ≠ .zero sign := by
  obtain ⟨t, n, hplace, hn, rfl⟩ := h
  have hpos : 0 < n := by
    rcases hplace.full with rfl | hfull
    · refine hn.pos_iff.mpr ?_
      have hleast : Format.binary32.minExponent = -149 := by decide
      rw [hleast, lt_div_iff₀ (by positivity)]
      norm_num at hlow ⊢
      exact hlow
    · exact (Nat.two_pow_pos 23).trans_le (hn.le_of_ge (by push_cast; exact hfull))
  intro hzero
  unfold carried at hzero
  split at hzero
  next =>
    rw [scaled_of_pos hpos] at hzero
    cases hzero
  next =>
    rw [scaled_of_pos (Nat.two_pow_pos _)] at hzero
    cases hzero

/-- Less than half a place above the largest number, that number is the nearest. -/
theorem isNearest_largest (hlow : (2 ^ 24 - 1 : ℚ) * 2 ^ (104 : ℤ) < q)
    (hhigh : q < 2 ^ 128 - 2 ^ 103) : IsNearest (q / 2 ^ (104 : ℤ)) (2 ^ 24 - 1) := by
  have hcast : ((2 ^ 24 - 1 : ℕ) : ℚ) = 2 ^ 24 - 1 := by norm_num
  have hlower : (2 ^ 24 - 1 : ℚ) < q / 2 ^ (104 : ℤ) := by rwa [lt_div_iff₀ (by positivity)]
  have hupper : q / 2 ^ (104 : ℤ) < (2 ^ 24 - 1 : ℚ) + 1 / 2 := by
    rw [div_lt_iff₀ (by positivity)]
    norm_num at hhigh ⊢
    linarith
  refine ⟨by rw [hcast]; linarith, by rw [hcast]; exact hupper.le, fun htie => ?_⟩
  rw [hcast] at htie
  rcases htie with htie | htie <;> linarith

/-- Between the two, a number is rounded to one of the format. -/
theorem Rounds.representable (h : Rounds .binary32 sign q u) (hlow : 2 ^ (-150 : ℤ) < q)
    (hhigh : q < 2 ^ 128 - 2 ^ 103) : ∃ m e, Representable .binary32 m e ∧ u = scaled sign m e := by
  have hbound : Canonical .binary32 (2 ^ 24 - 1) 104 := ⟨by decide, by decide, .inr (by decide)⟩
  have hcast : ((2 ^ 24 - 1 : ℕ) : ℚ) = 2 ^ 24 - 1 := by norm_num
  obtain ⟨m, e, hcanonical, hu, he⟩ : ∃ m e, Canonical .binary32 m e ∧ u = scaled sign m e ∧
      e ≤ 104 := by
    by_cases hle : q ≤ ((2 ^ 24 - 1 : ℕ) : ℚ) * 2 ^ (104 : ℤ)
    · obtain ⟨m, e, hcanonical, hu, hle⟩ := h.le hbound hle
      exact ⟨m, e, hcanonical, hu, by omega⟩
    · rw [hcast, not_le] at hle
      have hround := Rounds.of_isNearest hbound (isNearest_largest hle hhigh)
        (fun h => absurd h (by decide)) sign
      exact ⟨_, _, hbound, h.unique hround, le_rfl⟩
  have hm : 0 < m := by
    rcases Nat.eq_zero_or_pos m with rfl | hm
    · exact absurd hu (h.ne_zero hlow)
    · exact hm
  refine ⟨m, e, ⟨hcanonical, hm, ?_⟩, hu⟩
  change e + 127 + 23 + 1 < 2 ^ 8
  omega

/-- What `± q` is read as: the nearest number, infinity or zero. -/
inductive ReadAs (sign : Sign) (q : ℚ) : Float32 → Prop
  | overflow (h : 2 ^ 128 - 2 ^ 103 ≤ q) : ReadAs sign q (packed (.infinity sign))
  | underflow (h : q ≤ 2 ^ (-150 : ℤ)) : ReadAs sign q (packed (.zero sign))
  | nearest {m : ℕ} {e : ℤ} (hlow : 2 ^ (-150 : ℤ) < q) (hhigh : q < 2 ^ 128 - 2 ^ 103)
      (hm : Representable .binary32 m e) (h : Rounds .binary32 .positive q (scaled .positive m e)) :
      ReadAs sign q (packed (.finite sign m e hm.pos))

theorem Rounds.readAs (h : Rounds .binary32 .positive q u) (hpos : 0 < q) :
    ReadAs .positive q (packed u) := by
  by_cases hhigh : 2 ^ 128 - 2 ^ 103 ≤ q
  · rw [h.overflow hhigh]
    exact .overflow hhigh
  · by_cases hlow : q ≤ 2 ^ (-150 : ℤ)
    · rw [h.underflow hpos hlow]
      exact .underflow hlow
    · obtain ⟨m, e, hm, rfl⟩ := h.representable (not_le.mp hlow) (not_le.mp hhigh)
      rw [scaled_of_pos hm.pos]
      exact .nearest (not_le.mp hlow) (not_le.mp hhigh) hm h

theorem ReadAs.neg (h : ReadAs .positive q x) : ReadAs .negative q (-x) := by
  cases h with
  | overflow h => exact .overflow h
  | underflow h => exact .underflow h
  | nearest hlow hhigh hm h =>
      rw [neg_packed hm .positive]
      exact .nearest hlow hhigh hm h

/-! ## Decimals of any size -/

theorem ofScientific_zero (negative : Bool) (k : ℕ) :
    Float32.ofScientific 0 negative k = packed (.zero .positive) := by
  by_cases hfew : 0 < 2 ^ 23 ∧ k ≤ 10
  · obtain ⟨-, hk⟩ := hfew
    interval_cases k <;> cases negative <;> decide
  · rw [ofScientific_eq_model negative hfew]
    rfl

theorem readAs_of_large (hpos : 0 < n) (hk : 256 < k) :
    ReadAs .positive (n * 10 ^ (k : ℤ)) (Float32.ofScientific n false k) := by
  have hslow : ¬ (n < 2 ^ 23 ∧ k ≤ 10) := by omega
  have hguard : (2 : ℤ) ^ Format.binary32.exponentBits < k := by
    change (256 : ℤ) < k
    omega
  have hinfinity : Float32.ofScientific n false k = packed (.infinity .positive) := by
    rw [ofScientific_eq_model false hslow, if_neg Bool.false_ne_true, UnpackedFloat.ofScientific,
      dif_neg hpos.ne', if_pos hguard]
  rw [hinfinity]
  refine .overflow ?_
  have hn : (1 : ℚ) ≤ n := by exact_mod_cast hpos
  have hten : (10 : ℚ) ^ 256 ≤ 10 ^ (k : ℤ) := by
    rw [zpow_natCast]
    exact pow_le_pow_right₀ (by norm_num) hk.le
  calc (2 : ℚ) ^ 128 - 2 ^ 103 ≤ 1 * 10 ^ 256 := by norm_num
    _ ≤ (n : ℚ) * 10 ^ (k : ℤ) := by gcongr

theorem readAs_of_small (hpos : 0 < n) (hk : 256 + n.log2 < k) :
    ReadAs .positive (n * 10 ^ (-(k : ℤ))) (Float32.ofScientific n true k) := by
  have hslow : ¬ (n < 2 ^ 23 ∧ k ≤ 10) := by omega
  have hguard : -(k : ℤ) < -((2 : ℤ) ^ Format.binary32.exponentBits + n.log2) := by
    change -(k : ℤ) < -(256 + (n.log2 : ℤ))
    omega
  have hlarge : ¬ -(k : ℤ) > 2 ^ Format.binary32.exponentBits := by
    change ¬ -(k : ℤ) > 256
    omega
  have hzero : Float32.ofScientific n true k = packed (.zero .positive) := by
    rw [ofScientific_eq_model true hslow, if_pos rfl, UnpackedFloat.ofScientific,
      dif_neg hpos.ne', if_neg hlarge, if_pos hguard]
  rw [hzero]
  refine .underflow ?_
  have hn : (n : ℚ) ≤ 2 ^ (n.log2 + 1) := by exact_mod_cast (Nat.lt_log2_self (n := n)).le
  have hten : (2 : ℚ) ^ (n.log2 + 1) * 2 ^ 150 ≤ 10 ^ k := by
    calc (2 : ℚ) ^ (n.log2 + 1) * 2 ^ 150 = 2 ^ (n.log2 + 1 + 150) := (pow_add ..).symm
      _ ≤ 2 ^ k := pow_le_pow_right₀ one_le_two (by omega)
      _ ≤ 10 ^ k := pow_le_pow_left₀ (by norm_num) (by norm_num) k
  have hpow : (0 : ℚ) < 10 ^ k := by positivity
  rw [zpow_neg, zpow_natCast, ← div_eq_mul_inv, div_le_iff₀ hpow, zpow_neg, inv_mul_eq_div,
    le_div_iff₀ (by positivity)]
  calc (n : ℚ) * 2 ^ (150 : ℤ) ≤ 2 ^ (n.log2 + 1) * 2 ^ (150 : ℤ) := by gcongr
    _ ≤ 10 ^ k := by exact_mod_cast hten

/-- Every decimal is read as the nearest number, infinity or zero. -/
theorem readAs_ofScientific (n : ℕ) (negative : Bool) (k : ℕ) :
    ReadAs .positive (n * 10 ^ (if negative then -(k : ℤ) else k))
      (Float32.ofScientific n negative k) := by
  rcases Nat.eq_zero_or_pos n with rfl | hpos
  · rw [ofScientific_zero]
    refine .underflow ?_
    rw [Nat.cast_zero, zero_mul]
    positivity
  · by_cases hk : k ≤ 256 + if negative then n.log2 else 0
    · have hcast : (0 : ℚ) < n := by exact_mod_cast hpos
      obtain ⟨hlow, hhigh⟩ := scale_in_range hk
      have hround := ofScientific_rounds .binary32 hpos hlow hhigh
      rw [ofScientific_eq_packed hpos hk hround]
      exact hround.readAs (by positivity)
    · cases negative with
      | false => exact readAs_of_large hpos (not_le.mp hk)
      | true => exact readAs_of_small hpos (not_le.mp hk)

end Single

namespace Decimal.Literal

/-- The exact value without the sign. -/
def magnitude (l : Literal) : ℚ := l.digits * 10 ^ l.scale

def sign (l : Literal) : Sign := if l.negative then .negative else .positive

theorem readAs_single (l : Literal) : Single.ReadAs l.sign l.magnitude l.single := by
  obtain ⟨negative, digits, scale⟩ := l
  have hscale : (if decide (scale < 0) then -(scale.natAbs : ℤ) else scale.natAbs) = scale := by
    simp only [decide_eq_true_eq]
    split <;> omega
  have hread := Single.readAs_ofScientific digits (scale < 0) scale.natAbs
  rw [hscale] at hread
  cases negative with
  | false => exact hread
  | true => exact hread.neg

end Decimal.Literal

end Patchbay
