import Patchbay.Decimal.Shortest
import Patchbay.Proofs.Single.Rounding

/-! # Shortest decimals

The neighbourhood of a number holds only decimals that are rounded to it, and one of them is
found. -/

namespace Patchbay.Decimal

open Float.Model (Format)
open Float.Model.UnpackedFloat (Sign)
open Single (Canonical IsNearest Rounds scaled)

variable {format : Format} {m k : ℕ} {e scale : ℤ}

theorem zpow_eq_div {a : ℚ} (ha : a ≠ 0) (i : ℤ) : a ^ i = a ^ i.toNat / a ^ (-i).toNat := by
  rw [← zpow_natCast, ← zpow_natCast, ← zpow_sub₀ ha]
  congr 1
  omega

namespace Neighbourhood

/-! ## Grid points -/

theorem step_pos (n : Neighbourhood) (scale : ℤ) :
    0 < (n.step scale).1 ∧ 0 < (n.step scale).2 := by
  simp only [step, Nat.shiftLeft_eq, Nat.pow_eq]
  exact ⟨by positivity, by positivity⟩

/-- A grid step in quarters. -/
theorem step_div (n : Neighbourhood) (scale : ℤ) :
    ((n.step scale).1 : ℚ) / (n.step scale).2 = 10 ^ scale / 2 ^ n.exponent := by
  rw [zpow_eq_div (by norm_num : (10 : ℚ) ≠ 0), zpow_eq_div two_ne_zero n.exponent]
  simp only [step, Nat.shiftLeft_eq, Nat.pow_eq]
  push_cast
  field_simp

/-- A grid point is owned if it is between the ends, which count only if they are. -/
theorem owns_iff (n : Neighbourhood) :
    n.owns scale k ↔
      if n.closed then n.low ≤ k * ((10 : ℚ) ^ scale / 2 ^ n.exponent) ∧
        k * ((10 : ℚ) ^ scale / 2 ^ n.exponent) ≤ n.high
      else n.low < k * ((10 : ℚ) ^ scale / 2 ^ n.exponent) ∧
        k * ((10 : ℚ) ^ scale / 2 ^ n.exponent) < n.high := by
  have hden : (0 : ℚ) < (n.step scale).2 := by exact_mod_cast (n.step_pos scale).2
  rw [← step_div, ← mul_div_assoc, le_div_iff₀ hden, div_le_iff₀ hden, lt_div_iff₀ hden,
    div_lt_iff₀ hden]
  unfold owns
  simp only
  split
  · simp only [Bool.and_eq_true, decide_eq_true_eq]
    norm_cast
  · simp only [Bool.and_eq_true, decide_eq_true_eq]
    norm_cast

theorem of_low (format : Format) (m : ℕ) (e : ℤ) :
    4 * m ≤ (of format m e).low + 2 ∧
      (m = 2 ^ format.mantissaBitsWithoutImplicit → 4 * m ≤ (of format m e).low + 1) := by
  simp only [of, Nat.one_shiftLeft]
  split <;> constructor <;> omega

/-- What a number owns is rounded to it. -/
theorem rounds_of_owns (hm : Canonical format m e) (h : (of format m e).owns scale k)
    (sign : Sign) : Rounds format sign (k * 10 ^ scale) (scaled sign m e) := by
  have hquarter : (k : ℚ) * (10 ^ scale / 2 ^ (of format m e).exponent) =
      4 * (k * 10 ^ scale / 2 ^ e) := by
    change (k : ℚ) * (10 ^ scale / 2 ^ (e - 2)) = _
    rw [zpow_sub₀ two_ne_zero]
    field_simp
    norm_num
  have hlow : 4 * (m : ℚ) ≤ (of format m e).low + 2 := by
    exact_mod_cast (of_low format m e).1
  have hhigh : ((of format m e).high : ℚ) = 4 * m + 2 := by
    simp [of]
  rw [owns_iff, hquarter] at h
  have hnearest : IsNearest (k * 10 ^ scale / 2 ^ e) m := by
    split at h
    next hclosed =>
      exact ⟨by linarith, by linarith, fun _ => by simpa [of] using hclosed⟩
    next =>
      refine ⟨by linarith, by linarith, fun hx => ?_⟩
      rcases hx with hx | hx <;> linarith
  refine .of_isNearest hm hnearest (fun htwo => ?_) sign
  have hlow : 4 * (m : ℚ) ≤ (of format m e).low + 1 := by
    exact_mod_cast (of_low format m e).2 htwo
  split at h <;> linarith

theorem pos_of_owns (hm : 0 < m) (h : (of format m e).owns scale k) : 0 < k := by
  have hlow := (of_low format m e).1
  have htwo : 0 < (of format m e).low := by omega
  by_contra hk
  obtain rfl : k = 0 := by omega
  have hcast : (0 : ℚ) < (of format m e).low := by exact_mod_cast htwo
  rw [owns_iff, Nat.cast_zero, zero_mul] at h
  split at h <;> linarith

/-! ## The search -/

theorem owns_of_pick {n : Neighbourhood} (h : n.pick scale = some k) : n.owns scale k := by
  unfold pick at h
  simp only at h
  split at h
  next hbelow habove =>
    cases h
    split
    · exact hbelow
    · exact habove
  next hbelow _ =>
    cases h
    exact hbelow
  next _ habove =>
    cases h
    exact habove
  next => cases h

/-- A grid with steps of less than a quarter has a point to write. -/
theorem exists_pick {n : Neighbourhood} (hlow : n.low < n.centre) (hhigh : n.centre < n.high)
    (hstep : (n.step scale).1 < (n.step scale).2) : ∃ k, n.pick scale = some k := by
  obtain ⟨hnum, hden⟩ := n.step_pos scale
  have howns : n.owns scale (n.centre * (n.step scale).2 / (n.step scale).1) := by
    have hbelow := Nat.div_mul_le_self (n.centre * (n.step scale).2) (n.step scale).1
    have habove := Nat.lt_mul_div_succ (n.centre * (n.step scale).2) hnum
    have hleft : (n.low + 1) * (n.step scale).2 ≤ n.centre * (n.step scale).2 :=
      Nat.mul_le_mul_right _ hlow
    have hright : n.centre * (n.step scale).2 < n.high * (n.step scale).2 :=
      Nat.mul_lt_mul_of_pos_right hhigh hden
    rw [Nat.mul_add_one, Nat.mul_comm (n.step scale).1] at habove
    rw [Nat.add_one_mul] at hleft
    simp only [owns]
    split <;> simp only [Bool.and_eq_true, decide_eq_true_eq] <;> omega
  unfold pick
  simp only [howns]
  split <;> simp_all

/-- The coarsest grid has a point if the finest has. -/
theorem owns_coarsest {n : Neighbourhood} {finer : ℕ}
    (h : ∃ k, n.pick (scale - finer) = some k) :
    n.owns (n.coarsest scale finer).scale (n.coarsest scale finer).digits := by
  induction finer generalizing scale with
  | zero =>
      obtain ⟨k, hk⟩ := h
      rw [Nat.cast_zero, sub_zero] at hk
      simp only [coarsest, hk, Option.getD_some]
      exact owns_of_pick hk
  | succ finer ih =>
      unfold coarsest
      split
      next digits hpick => exact owns_of_pick hpick
      next =>
          refine ih ?_
          rwa [Nat.cast_succ, add_comm, ← sub_sub] at h

theorem le_scale_coarsest (n : Neighbourhood) (scale : ℤ) (finer : ℕ) :
    scale - finer ≤ (n.coarsest scale finer).scale := by
  induction finer generalizing scale with
  | zero => simp [coarsest]
  | succ finer ih =>
      unfold coarsest
      split
      next => simp only; omega
      next =>
          have := ih (scale - 1)
          omega

end Neighbourhood

theorem le_scale_shortest (m : ℕ) (e : ℤ) : -64 ≤ (shortest .binary32 m e).scale := by
  have hgrid : gridRange .binary32 = (40, 104) := by decide
  simp only [shortest, hgrid]
  exact Neighbourhood.le_scale_coarsest _ 40 104

/-- The finest grid is fine enough for every number, so the shortest decimal of a number is one that
it owns. -/
theorem owns_shortest (hpos : 0 < m) (he : -149 ≤ e) :
    (Neighbourhood.of .binary32 m e).owns (shortest .binary32 m e).scale
      (shortest .binary32 m e).digits := by
  have hgrid : gridRange .binary32 = (40, 104) := by decide
  simp only [shortest, hgrid]
  refine Neighbourhood.owns_coarsest (Neighbourhood.exists_pick ?_ ?_ ?_)
  · simp only [Neighbourhood.of]
    split <;> omega
  · simp only [Neighbourhood.of]
    omega
  · simp only [Neighbourhood.step, Neighbourhood.of, Nat.shiftLeft_eq, Nat.pow_eq]
    have hnum : 2 ^ (-(e - 2)).toNat ≤ 2 ^ 151 := Nat.pow_le_pow_right Nat.two_pos (by omega)
    have hden : 0 < 2 ^ (e - 2).toNat := Nat.two_pow_pos _
    have hcoarse : ((40 : ℤ) - (104 : ℕ)).toNat = 0 := by decide
    have hfine : (-((40 : ℤ) - (104 : ℕ))).toNat = 64 := by decide
    rw [hcoarse, hfine, Nat.pow_zero, Nat.one_mul]
    calc 2 ^ (-(e - 2)).toNat ≤ 2 ^ 151 := hnum
      _ < 10 ^ 64 := by decide
      _ ≤ 10 ^ 64 * 2 ^ (e - 2).toNat := Nat.le_mul_of_pos_right _ hden

end Patchbay.Decimal
