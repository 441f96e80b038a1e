import Patchbay.Param
import Patchbay.Proofs.Single.Values

/-! # Halving

To divide a number by a power of two is to lower its exponent, and exact as long as the exponent has
room below it.  A period has much room, unless it is infinite. -/

namespace Patchbay.Single

open Float.Model (Format UnpackedFloat)

variable {x y : Float32} {m : ℕ} {e f : ℤ} {k : ℕ}

/-! ## Lower exponents -/

theorem Representable.lower (h : Representable .binary32 m e) (hk : -149 + (k : ℤ) ≤ e) :
    Representable .binary32 m (e - k) := by
  have hleast : Format.binary32.minExponent = -149 := by decide
  have hbounded := h.bounded
  refine ⟨⟨by omega, h.fits, ?_⟩, h.pos, by omega⟩
  exact h.full.imp_left fun he => by omega

theorem div_two_pow (h : Representable .binary32 m e) (hk : -149 + (k : ℤ) ≤ e)
    (hy : HasValue y .positive (2 ^ k)) :
    packed (.finite .positive m e h.pos) / y = packed (.finite .positive m (e - k) h.pos) := by
  have hexact := Rounds.of_canonical (h.lower hk).toCanonical .positive
  rw [scaled_of_pos h.pos] at hexact
  refine div_eq_packed (hasValue_packed h .positive) hy ?_
  rwa [mul_div_assoc, ← zpow_natCast, ← zpow_sub₀ two_ne_zero]

theorem mul_inv_two_pow (h : Representable .binary32 m e) (hk : -149 + (k : ℤ) ≤ e)
    (hy : HasValue y .positive (2 ^ k)⁻¹) :
    packed (.finite .positive m e h.pos) * y = packed (.finite .positive m (e - k) h.pos) := by
  have hexact := Rounds.of_canonical (h.lower hk).toCanonical .positive
  rw [scaled_of_pos h.pos] at hexact
  refine mul_eq_packed (hasValue_packed h .positive) hy ?_
  rwa [mul_assoc, ← div_eq_mul_inv, ← zpow_natCast, ← zpow_sub₀ two_ne_zero]

/-- Of two numbers with the same significand the one with the lower exponent is less. -/
theorem packed_le_packed_iff (he : Representable .binary32 m e)
    (hf : Representable .binary32 m f) :
    packed (.finite .positive m e he.pos) ≤ packed (.finite .positive m f hf.pos) ↔ e ≤ f := by
  rw [le_iff_view, view_packed he, view_packed hf]
  change ((compare e f).then (compare m m)).isLE ↔ e ≤ f
  rw [Nat.compare_eq_eq.mpr rfl, Ordering.then_eq, Int.isLE_compare]

/-! ## Infinity -/

def infinity : Float32 := packed (.infinity .positive)

theorem view_infinity : view infinity = .infinity .positive := by rfl

theorem packed_eq_infinity (hm : 0 < m) (he : 104 < e) :
    packed (.finite .positive m e hm) = infinity := packed_overflow hm he .positive

theorem infinity_div {q : ℚ} (hy : HasValue y .positive q) : infinity / y = infinity := by
  obtain ⟨m, e, hm, hview, -⟩ := hy
  change packed (UnpackedFloat.div .binary32 (view infinity) (view y)) = infinity
  rw [view_infinity, hview]
  rfl

theorem infinity_mul {q : ℚ} (hy : HasValue y .positive q) : infinity * y = infinity := by
  obtain ⟨m, e, hm, hview, -⟩ := hy
  change packed (UnpackedFloat.mul .binary32 (view infinity) (view y)) = infinity
  rw [view_infinity, hview]
  rfl

theorem not_infinity_lt (x : Float32) : ¬ infinity < x := by
  rw [lt_iff_view, view_infinity]
  cases view x with
  | infinity sign => cases sign <;> decide
  | _ => exact Bool.false_ne_true

/-! ## Periods -/

/-- Infinite, or a positive number that is not small. -/
def Roomy (x : Float32) : Prop :=
  x = infinity ∨
    ∃ m e, ∃ h : Representable .binary32 m e, -33 ≤ e ∧ x = packed (.finite .positive m e h.pos)

/-- Whatever is written, a period is infinite or has room. -/
theorem roomy_atLeastMinPeriod (v : Float32) : Roomy (atLeastMinPeriod v) := by
  have hview : view minPeriod = .finite .positive 8589935 (-33) (by decide) := by rfl
  have hleast : Roomy minPeriod :=
    .inr ⟨_, _, representable_view hview, le_rfl, by rw [← hview, packed_view]⟩
  unfold atLeastMinPeriod larger
  split
  next => exact hleast
  next hnan =>
    split
    next => exact absurd ‹_› (by decide)
    next =>
      split
      next => exact hleast
      next hlt =>
        rw [lt_iff_view, hview] at hlt
        change ¬ (view v).isNaN = true at hnan
        rw [← packed_view v]
        cases hv : view v with
        | infinity sign =>
            cases sign with
            | positive => exact .inl rfl
            | negative => rw [hv] at hlt; exact absurd rfl hlt
        | notANumber => rw [hv] at hnan; exact absurd rfl hnan
        | zero sign => rw [hv] at hlt; exact absurd rfl hlt
        | finite sign m e hm =>
            cases sign with
            | negative => rw [hv] at hlt; exact absurd rfl hlt
            | positive =>
                refine .inr ⟨m, e, representable_view hv, ?_, rfl⟩
                by_contra he
                rw [hv] at hlt
                refine hlt ?_
                change (some ((compare e (-33)).then _) == some .lt) = true
                rw [Int.compare_eq_lt.mpr (not_le.mp he)]
                rfl

theorem hasValue_two_pow (hk : k ≤ 4) : HasValue (ofInt (2 ^ k)) .positive (2 ^ k) := by
  have hne : (2 : ℤ) ^ k ≠ 0 := by positivity
  have hle : 2 ^ k ≤ 2 ^ 4 := Nat.pow_le_pow_right Nat.two_pos hk
  have habs : ((2 : ℤ) ^ k).natAbs = 2 ^ k := by rw [Int.natAbs_pow]; rfl
  have hvalue := hasValue_ofInt hne (by omega)
  rw [if_neg (not_lt.mpr (by positivity)), habs] at hvalue
  exact_mod_cast hvalue

theorem hasValue_two : HasValue 2.0 .positive (2 ^ 1) :=
  ⟨2 ^ 23, -22, by decide, by rfl, by norm_num⟩

theorem hasValue_sixteenth : HasValue (1.0 / 16.0) .positive (2 ^ 4)⁻¹ :=
  ⟨2 ^ 23, -27, by decide, by rfl, by norm_num⟩

namespace Roomy

theorem div_one (hx : Roomy x) : x / ofInt (2 ^ 0) = x := by
  rcases hx with rfl | ⟨m, e, h, he, rfl⟩
  · exact infinity_div (hasValue_two_pow (by decide))
  · rw [div_two_pow h (by omega) (hasValue_two_pow (by decide)), Nat.cast_zero, sub_zero]

/-- One more halving. -/
theorem div_div_two (hx : Roomy x) (hk : k < 4) :
    x / ofInt (2 ^ k) / 2.0 = x / ofInt (2 ^ (k + 1)) := by
  have hnext : HasValue (ofInt (2 ^ (k + 1))) .positive (2 ^ (k + 1)) := hasValue_two_pow hk
  rcases hx with rfl | ⟨m, e, h, he, rfl⟩
  · rw [infinity_div (hasValue_two_pow hk.le), infinity_div hasValue_two, infinity_div hnext]
  · rw [div_two_pow h (by omega) (hasValue_two_pow hk.le),
      div_two_pow (h.lower (by omega)) (by push_cast; omega) hasValue_two,
      div_two_pow h (by push_cast; omega) hnext, sub_sub, Nat.cast_add]

/-- Four halvings are needed to come down to a sixteenth, but infinity is a sixteenth of itself. -/
theorem div_le_sixteenth_iff (hx : Roomy x) (hk : k ≤ 4) :
    x / ofInt (2 ^ k) ≤ x * (1.0 / 16.0) ↔ k = 4 ∨ x = infinity := by
  rcases hx with rfl | ⟨m, e, h, he, rfl⟩
  · rw [infinity_div (hasValue_two_pow hk), infinity_mul hasValue_sixteenth]
    exact iff_of_true (by decide) (.inr rfl)
  · have hne : packed (.finite .positive m e h.pos) ≠ infinity := by
      intro heq
      have hview := congrArg view heq
      rw [view_packed h, view_infinity] at hview
      exact nomatch hview
    rw [div_two_pow h (by omega) (hasValue_two_pow hk),
      mul_inv_two_pow h (by push_cast; omega) hasValue_sixteenth,
      packed_le_packed_iff (h.lower (by omega)) (h.lower (by push_cast; omega))]
    rw [or_iff_left hne]
    omega

/-- However often it is halved, up to four times, it stays positive, and no less than a sixteenth. -/
theorem sixteenth_le (hx : Roomy x) (hk : k ≤ 4) :
    0.0 < x / ofInt (2 ^ k) ∧ x / ofInt (2 ^ 4) ≤ x / ofInt (2 ^ k) := by
  rcases hx with rfl | ⟨m, e, h, he, rfl⟩
  · rw [infinity_div (hasValue_two_pow hk), infinity_div (hasValue_two_pow le_rfl)]
    decide
  · rw [div_two_pow h (by omega) (hasValue_two_pow hk),
      div_two_pow h (by push_cast; omega) (hasValue_two_pow le_rfl)]
    constructor
    · rw [lt_iff_view, view_packed (h.lower (by omega)), view_zero]
      rfl
    · refine (packed_le_packed_iff (h.lower (by push_cast; omega)) (h.lower (by omega))).mpr ?_
      omega

/-- Twice a period is no negative number, also where it does not fit. -/
theorem not_double_lt_zero (hx : Roomy x) : ¬ x * 2.0 < 0.0 := by
  rcases hx with rfl | ⟨m, e, h, he, rfl⟩
  · rw [infinity_mul hasValue_two]
    exact not_infinity_lt _
  · have hleast : Format.binary32.minExponent = -149 := by decide
    have hcanonical : Canonical .binary32 m (e + 1) :=
      ⟨by omega, h.fits, h.full.imp_left fun he' => by omega⟩
    have hexact := Rounds.of_canonical hcanonical .positive
    rw [scaled_of_pos h.pos] at hexact
    have hdouble : packed (.finite .positive m e h.pos) * 2.0 =
        packed (.finite .positive m (e + 1) h.pos) := by
      refine mul_eq_packed (hasValue_packed h .positive) hasValue_two ?_
      rwa [mul_assoc, ← zpow_natCast, ← zpow_add₀ two_ne_zero]
    rw [hdouble]
    by_cases hlarge : 104 < e + 1
    · rw [packed_eq_infinity h.pos hlarge]
      exact not_infinity_lt _
    · have hfits : Representable .binary32 m (e + 1) := by
        refine ⟨hcanonical, h.pos, ?_⟩
        change e + 1 + 127 + 23 + 1 < 2 ^ 8
        omega
      rw [lt_iff_view, view_packed hfits, view_zero]
      exact Bool.false_ne_true

/-- Equal periods are the same. -/
theorem eq_of_beq (hx : Roomy x) (hy : Roomy y) (h : x == y) : x = y := by
  change UnpackedFloat.beq (view x) (view y) = true at h
  rcases hx with rfl | ⟨m, e, hm, -, rfl⟩ <;> rcases hy with rfl | ⟨n, f, hn, -, rfl⟩
  · rfl
  · rw [view_infinity, view_packed hn] at h
    exact absurd h Bool.false_ne_true
  · rw [view_infinity, view_packed hm] at h
    exact absurd h Bool.false_ne_true
  · rw [view_packed hm, view_packed hn] at h
    change (some ((compare e f).then (compare m n)) == some .eq) = true at h
    have hthen : (compare e f).then (compare m n) = .eq := by simpa using h
    obtain ⟨he, hmn⟩ := Ordering.then_eq_eq.mp hthen
    obtain rfl := Int.compare_eq_eq.mp he
    obtain rfl := Nat.compare_eq_eq.mp hmn
    rfl

theorem isInf_iff (hx : Roomy x) : x.isInf ↔ x = infinity := by
  rcases hx with rfl | ⟨m, e, h, he, rfl⟩
  · exact iff_of_true rfl rfl
  · have hview := view_packed h .positive
    constructor
    · intro hinf
      change (view _).isInf = true at hinf
      rw [hview] at hinf
      exact absurd hinf Bool.false_ne_true
    · intro heq
      rw [heq, view_infinity] at hview
      exact nomatch hview

end Roomy

end Patchbay.Single
