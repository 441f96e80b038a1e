import Patchbay.Proofs.Single.Bounded
import Patchbay.Proofs.Single.Special

/-! # Opposite numbers

The opposite of a number is exact like the number.  Between bounds that are opposite, the opposite
is cut off where the number is, and cutting off keeps the side of zero. -/

namespace Patchbay.Single

variable {x low high : Float32} {q l h : ℚ}

theorem view_neg (x : Float32) : view (-x) = (view x).neg := by
  have hneg : view (-x) = view (packed (view x).neg) := rfl
  cases hx : view x with
  | notANumber =>
      rw [hneg, hx]
      rfl
  | infinity sign =>
      rw [hneg, hx]
      cases sign <;> rfl
  | zero sign => exact hx ▸ (Exact.zero hx).view_neg
  | finite sign m e hm => exact hx ▸ (Exact.finite ⟨m, e, hm, hx, rfl⟩).view_neg

theorem neg_neg (x : Float32) : -(-x) = x := by
  have hview : (view x).neg.neg = view x := by
    cases view x with
    | notANumber => rfl
    | infinity sign | zero sign | finite sign => cases sign <;> rfl
  calc -(-x) = packed (view (-x)).neg := rfl
    _ = x := by rw [view_neg, hview, packed_view]

theorem clamp_of_exact (hl : Exact low l) (hh : Exact high h) (hle : l ≤ h) (hx : Exact x q) :
    clamp low high x = if q < l then low else if h < q then high else x := by
  have hlow : ¬ low > high := fun hlt => not_lt.mpr hle ((hh.lt_iff hl).mp hlt)
  unfold clamp
  dsimp only
  by_cases hxl : q < l
  · rw [if_pos ((hx.lt_iff hl).mpr hxl), if_neg hlow, if_pos hxl]
  · rw [if_neg (mt (hx.lt_iff hl).mp hxl), if_neg hxl]
    exact if_congr (hh.lt_iff hx) rfl rfl

theorem Rounded.exact_zero (h : Rounded x 0) : Exact x 0 := by
  exact_mod_cast Rounded.intCast (i := 0) (by exact_mod_cast h) (by decide)

theorem not_isNaN_of_lt (h : low < x) : ¬ x.isNaN := fun hnan =>
  not_lt_nan low (eq_nan_of_isNaN hnan ▸ h)

theorem not_isNaN_of_le (h : low ≤ x) : ¬ x.isNaN := fun hnan =>
  not_le_nan low (eq_nan_of_isNaN hnan ▸ h)

/-- What is neither infinite nor NaN is exact. -/
theorem infinite_or_exact (hx : ¬ x.isNaN) :
    x = packed (.infinity .negative) ∨ x = packed (.infinity .positive) ∨ ∃ q, Exact x q := by
  rw [← packed_view x]
  cases hview : view x with
  | notANumber => exact absurd (show (view x).isNaN = true from hview ▸ rfl) hx
  | infinity sign =>
      cases sign
      · exact .inl rfl
      · exact .inr (.inl rfl)
  | zero sign => exact .inr (.inr ⟨0, exact_packed_zero sign⟩)
  | finite sign m e hm =>
      have hvalue := hasValue_packed (representable_view hview) sign
      exact .inr (.inr ⟨_, .finite hvalue⟩)

theorem clamp_neg (hx : ¬ x.isNaN) : clamp (-1.0) 1.0 (-x) = -clamp (-1.0) 1.0 x := by
  rcases infinite_or_exact hx with rfl | rfl | ⟨q, hq⟩
  · decide
  · decide
  · have hone : Exact (-1.0) (-1) := Exact.one.neg
    rw [clamp_of_exact hone .one (by norm_num) hq, clamp_of_exact hone .one (by norm_num) hq.neg]
    by_cases hlow : q < -1
    · rw [if_pos hlow, if_neg (by linarith), if_pos (by linarith), neg_neg]
    · by_cases hhigh : 1 < q
      · rw [if_neg hlow, if_pos hhigh, if_pos (by linarith)]
      · rw [if_neg hlow, if_neg hhigh, if_neg (by linarith), if_neg (by linarith)]

/-- Cutting off at full speed does not turn the other way. -/
theorem exists_exact_clamp_unit (hx : ¬ x.isNaN) :
    ∃ q, Exact (clamp (-1.0) 1.0 x) q ∧ (0 < q → 0.0 < x) ∧ (q < 0 → x < 0.0) := by
  rcases infinite_or_exact hx with rfl | rfl | ⟨q, hq⟩
  · exact ⟨-1, Exact.one.neg, by norm_num, fun _ => by decide⟩
  · exact ⟨1, .one, fun _ => by decide, by norm_num⟩
  · rw [exact_zero.lt_iff hq, hq.lt_iff exact_zero,
      clamp_of_exact Exact.one.neg .one (by norm_num) hq]
    split
    next hlow => exact ⟨-1, Exact.one.neg, by norm_num, fun _ => by linarith⟩
    next =>
      split
      next hhigh => exact ⟨1, .one, fun _ => by linarith, by norm_num⟩
      next => exact ⟨q, hq, id, id⟩

end Patchbay.Single
