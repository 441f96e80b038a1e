import Patchbay.Proofs.Single.Values

/-! # Signed values

A number that is neither infinite nor NaN has an exact value with a sign.  Comparisons compare exact
values. -/

namespace Patchbay.Single

open Float.Model (Format UnpackedFloat)
open Float.Model.UnpackedFloat (Sign)

variable {x y : Float32} {sign sign' : Sign} {p q : ℚ} {m n : ℕ} {e f : ℤ}

/-! ## Exact values -/

def signed (sign : Sign) (q : ℚ) : ℚ :=
  match sign with
  | .negative => -q
  | .positive => q

/-- The exact value of a number. -/
inductive Exact (x : Float32) : ℚ → Prop
  | zero {sign : Sign} : view x = .zero sign → Exact x 0
  | finite {sign : Sign} {q : ℚ} : HasValue x sign q → Exact x (signed sign q)

theorem HasValue.pos (h : HasValue x sign q) : 0 < q := by
  obtain ⟨m, e, hm, -, rfl⟩ := h
  have hm : (0 : ℚ) < m := by exact_mod_cast hm
  positivity

theorem abs_signed (sign : Sign) (hq : 0 ≤ q) : |signed sign q| = q := by
  cases sign
  · exact (abs_neg q).trans (abs_of_nonneg hq)
  · exact abs_of_nonneg hq

theorem signed_mul (sign sign' : Sign) (p q : ℚ) :
    signed (sign * sign') (p * q) = signed sign p * signed sign' q := by
  cases sign <;> cases sign'
  · exact (neg_mul_neg p q).symm
  · exact (neg_mul p q).symm
  · exact (mul_neg p q).symm
  · rfl

theorem signed_div (sign sign' : Sign) (p q : ℚ) :
    signed (sign / sign') (p / q) = signed sign p / signed sign' q := by
  cases sign <;> cases sign'
  · exact (neg_div_neg_eq p q).symm
  · exact (neg_div q p).symm
  · exact (div_neg p).symm
  · rfl

theorem signed_neg (sign : Sign) (q : ℚ) : signed (-sign) q = -signed sign q := by
  cases sign
  · exact (neg_neg q).symm
  · rfl

theorem view_packed_zero (sign : Sign) : view (packed (.zero sign)) = .zero sign := by
  cases sign <;> rfl

theorem exact_packed_zero (sign : Sign) : Exact (packed (.zero sign)) 0 :=
  .zero (view_packed_zero sign)

theorem exact_packed (h : Representable .binary32 m e) (sign : Sign) :
    Exact (packed (scaled sign m e)) (signed sign (m * 2 ^ e)) := by
  rw [scaled_of_pos h.pos]
  exact .finite (hasValue_packed h sign)

theorem exact_zero : Exact 0.0 0 := .zero view_zero

/-- Only infinities and NaN have no exact value. -/
theorem exists_exact (hnan : view x ≠ .notANumber) (hinf : ∀ sign, view x ≠ .infinity sign) :
    ∃ q, Exact x q := by
  cases hx : view x with
  | notANumber => exact absurd hx hnan
  | infinity sign => exact absurd hx (hinf sign)
  | zero sign => exact ⟨0, .zero hx⟩
  | finite sign m e hm => exact ⟨_, .finite ⟨m, e, hm, hx, rfl⟩⟩

/-! ## Order -/

/-- Of two magnitudes that with the greater exponent is greater, since its significand is full. -/
theorem compare_magnitudes (h : Representable .binary32 m e) (h' : Representable .binary32 n f) :
    (compare e f).then (compare m n) = compare ((m : ℚ) * 2 ^ e) (n * 2 ^ f) := by
  have hlt {m n : ℕ} {e f : ℤ} (h : Representable .binary32 m e)
      (h' : Representable .binary32 n f) (hef : e < f) : (m : ℚ) * 2 ^ e < n * 2 ^ f := by
    have hfull : 2 ^ 23 ≤ n := h'.full.resolve_left (ne_of_gt (h.least.trans_lt hef))
    have hfits : m < 2 ^ 24 := h.fits
    have hpow : (2 : ℚ) * 2 ^ e ≤ 2 ^ f := by
      rw [← zpow_one_add₀ two_ne_zero]
      exact zpow_le_zpow_right₀ one_le_two (by omega)
    calc (m : ℚ) * 2 ^ e < 2 ^ 24 * 2 ^ e := by
          have hm : (m : ℚ) < 2 ^ 24 := by exact_mod_cast hfits
          gcongr
      _ = 2 ^ 23 * (2 * 2 ^ e) := by ring
      _ ≤ 2 ^ 23 * 2 ^ f := by gcongr
      _ ≤ n * 2 ^ f := by
          have hn : (2 : ℚ) ^ 23 ≤ n := by exact_mod_cast hfull
          gcongr
  rcases lt_trichotomy e f with hef | rfl | hef
  · rw [compare_lt_iff_lt.mpr hef, compare_lt_iff_lt.mpr (hlt h h' hef)]
    rfl
  · have hpow : (0 : ℚ) < 2 ^ e := by positivity
    rw [compare_eq_iff_eq.mpr rfl, Ordering.eq_then]
    rcases lt_trichotomy m n with hmn | rfl | hmn
    · have hcast : (m : ℚ) < n := by exact_mod_cast hmn
      rw [compare_lt_iff_lt.mpr hmn, compare_lt_iff_lt.mpr (by gcongr)]
    · rw [compare_eq_iff_eq.mpr rfl, compare_eq_iff_eq.mpr rfl]
    · have hcast : (n : ℚ) < m := by exact_mod_cast hmn
      rw [compare_gt_iff_gt.mpr hmn, compare_gt_iff_gt.mpr (by gcongr)]
  · rw [compare_gt_iff_gt.mpr hef, compare_gt_iff_gt.mpr (hlt h' h hef)]
    rfl

theorem compare_neg_neg (p q : ℚ) : compare (-p) (-q) = (compare p q).swap := by
  rcases lt_trichotomy p q with h | rfl | h
  · rw [compare_lt_iff_lt.mpr h, compare_gt_iff_gt.mpr (neg_lt_neg h)]
    rfl
  · rw [compare_eq_iff_eq.mpr rfl, compare_eq_iff_eq.mpr rfl]
    rfl
  · rw [compare_gt_iff_gt.mpr h, compare_lt_iff_lt.mpr (neg_lt_neg h)]
    rfl

theorem signed_negative_lt (hq : 0 < q) : signed .negative q < 0 := neg_lt_zero.mpr hq

theorem signed_positive_gt (hq : 0 < q) : 0 < signed .positive q := hq

namespace Exact

theorem positive (hx : HasValue x .positive q) : Exact x q := .finite hx

theorem not_isNaN (hx : Exact x q) : ¬ x.isNaN := by
  change ¬ (view x).isNaN = true
  cases hx with
  | zero hx =>
      rw [hx]
      exact Bool.false_ne_true
  | finite hx =>
      obtain ⟨m, e, hm, hview, -⟩ := hx
      rw [hview]
      exact Bool.false_ne_true

theorem compare_view (hx : Exact x p) (hy : Exact y q) :
    (view x).compare (view y) = some (compare p q) := by
  cases hx with
  | zero hx =>
      cases hy with
      | zero hy =>
          rw [hx, hy, compare_eq_iff_eq.mpr rfl]
          rfl
      | @finite sign q hy =>
          have hpos := hy.pos
          obtain ⟨n, f, hn, hview, -⟩ := hy
          rw [hx, hview]
          cases sign with
          | negative =>
              rw [compare_gt_iff_gt.mpr (signed_negative_lt hpos)]
              rfl
          | positive =>
              rw [compare_lt_iff_lt.mpr (signed_positive_gt hpos)]
              rfl
  | @finite sign p hx =>
      have hpos := hx.pos
      obtain ⟨m, e, hm, hview, rfl⟩ := hx
      cases hy with
      | zero hy =>
          rw [hview, hy]
          cases sign with
          | negative =>
              rw [compare_lt_iff_lt.mpr (signed_negative_lt hpos)]
              rfl
          | positive =>
              rw [compare_gt_iff_gt.mpr (signed_positive_gt hpos)]
              rfl
      | @finite sign' q hy =>
          have hpos' := hy.pos
          obtain ⟨n, f, hn, hview', rfl⟩ := hy
          have hmagnitudes := compare_magnitudes (representable_view hview)
            (representable_view hview')
          rw [hview, hview']
          cases sign with
          | negative =>
              cases sign' with
              | negative =>
                  change some ((compare e f).then (compare m n)).swap = some (compare (-_) (-_))
                  rw [hmagnitudes, compare_neg_neg]
              | positive =>
                  rw [compare_lt_iff_lt.mpr
                    ((signed_negative_lt hpos).trans (signed_positive_gt hpos'))]
                  rfl
          | positive =>
              cases sign' with
              | negative =>
                  rw [compare_gt_iff_gt.mpr
                    ((signed_negative_lt hpos').trans (signed_positive_gt hpos))]
                  rfl
              | positive => exact congrArg some hmagnitudes

theorem lt_iff (hx : Exact x p) (hy : Exact y q) : x < y ↔ p < q := by
  rw [← compare_lt_iff_lt]
  change decide ((view x).compare (view y) == some .lt) = true ↔ _
  rw [hx.compare_view hy]
  simp

theorem le_iff (hx : Exact x p) (hy : Exact y q) : x ≤ y ↔ p ≤ q := by
  rw [le_iff_view, UnpackedFloat.le, hx.compare_view hy, ← compare_le_iff_le]
  cases compare p q <;> simp

theorem beq_iff (hx : Exact x p) (hy : Exact y q) : x == y ↔ p = q := by
  refine Iff.trans ?_ compare_eq_iff_eq
  change ((view x).compare (view y) == some .eq) = true ↔ _
  rw [hx.compare_view hy]
  simp

theorem unique (hx : Exact x p) (hx' : Exact x q) : p = q := by
  have hcompare := hx.compare_view hx'
  rw [hx.compare_view hx, compare_eq_iff_eq.mpr rfl] at hcompare
  exact compare_eq_iff_eq.mp (Option.some.inj hcompare).symm

theorem not_infinity (hx : Exact x q) (sign : Sign) : x ≠ packed (.infinity sign) := by
  rintro rfl
  generalize hy : packed (.infinity sign) = y at hx
  have hview := view_packed_infinity sign
  rw [hy] at hview
  cases hx with
  | zero hx => exact nomatch hx.symm.trans hview
  | finite hx =>
      obtain ⟨m, e, hm, hx, -⟩ := hx
      exact nomatch hx.symm.trans hview

/-! ## Negation, absolute value and sign -/

theorem view_neg (hx : Exact x q) : view (-x) = (view x).neg := by
  change view (packed (view x).neg) = _
  cases hx with
  | @zero sign hx =>
      rw [hx]
      exact view_packed_zero (-sign)
  | @finite sign q hx =>
      obtain ⟨m, e, hm, hview, -⟩ := hx
      rw [hview]
      exact view_packed (representable_view hview) (-sign)

theorem neg (hx : Exact x q) : Exact (-x) (-q) := by
  have hview := hx.view_neg
  cases hx with
  | @zero sign hx =>
      rw [hx] at hview
      rw [neg_zero]
      exact .zero (show view (-x) = .zero (-sign) from hview)
  | @finite sign q hx =>
      obtain ⟨m, e, hm, hx, rfl⟩ := hx
      rw [hx] at hview
      rw [← signed_neg]
      exact .finite ⟨m, e, hm, hview, rfl⟩

theorem abs (hx : Exact x q) : Exact x.abs |q| := by
  cases hx with
  | zero hx =>
      have habs : x.abs = packed (.zero .positive) := by
        change packed (view x).abs = _
        rw [hx]
        rfl
      rw [habs, abs_zero]
      exact exact_packed_zero _
  | @finite sign q hx =>
      rw [abs_signed sign hx.pos.le]
      obtain ⟨m, e, hm, hview, rfl⟩ := hx
      have habs : x.abs = packed (.finite .positive m e hm) := by
        change packed (view x).abs = _
        rw [hview]
        rfl
      rw [habs]
      exact .positive (hasValue_packed (representable_view hview) .positive)

theorem one : Exact 1.0 1 := .positive ⟨_, _, _, view_one, by norm_num⟩

theorem signum (hx : Exact x q) : ∃ s, Exact (signum x) s ∧ |s| = 1 := by
  have hone : Exact (-1.0) (-1) := one.neg
  have hcases : Single.signum x = 1.0 ∨ Single.signum x = -1.0 := by
    unfold Single.signum
    cases hx with
    | @zero sign hx =>
        rw [hx]
        cases sign
        · exact .inr rfl
        · exact .inl rfl
    | @finite sign q hx =>
        obtain ⟨m, e, hm, hview, -⟩ := hx
        rw [hview]
        cases sign
        · exact .inr rfl
        · exact .inl rfl
  rcases hcases with h | h
  · exact ⟨1, h ▸ one, abs_one⟩
  · exact ⟨-1, h ▸ hone, by norm_num⟩

end Exact

end Patchbay.Single
