import Patchbay.Proofs.Single.Signed

/-! # Results within bounds

What is computed is the exact result, rounded.  Rounding leads neither out of bounds that need no
rounding themselves nor to the other side of zero, and whole numbers that are not too large need no
rounding. -/

namespace Patchbay.Single

open Float.Model (Format UnpackedFloat)
open Float.Model.UnpackedFloat (Sign decreaseExponent)

variable {x y : Float32} {p q β : ℚ} {m n : ℕ} {e : ℤ}

/-! ## Rounded results -/

/-- The number is what an exact result is rounded to. -/
inductive Rounded (x : Float32) : ℚ → Prop
  | zero : Exact x 0 → Rounded x 0
  | finite {sign : Sign} {q : ℚ} {u : UnpackedFloat} : 0 < q → Rounds .binary32 sign q u →
      x = packed u → Rounded x (signed sign q)

/-- A positive number that needs no rounding. -/
def Precise (β : ℚ) : Prop := ∃ m e, Representable .binary32 m e ∧ (m : ℚ) * 2 ^ e = β

theorem precise_of_lt (hpos : 0 < n) (hlt : n < 2 ^ 24) (hlow : -126 ≤ e) (hhigh : e ≤ 104) :
    Precise (n * 2 ^ e) :=
  exists_representable hpos hlt hlow hhigh

theorem precise_natCast (hpos : 0 < n) (hlt : n < 2 ^ 24) : Precise n := by
  simpa using precise_of_lt (e := 0) hpos hlt (by decide) (by decide)

theorem precise_one : Precise 1 := by
  simpa using precise_natCast (n := 1) (by decide) (by decide)

namespace Rounded

/-- Rounding does not lead out of bounds that need no rounding, nor to the other side of zero. -/
theorem within (h : Rounded x q) (hβ : Precise β) (hq : |q| ≤ β) :
    ∃ r, Exact x r ∧ |r| ≤ β ∧ (0 ≤ q → 0 ≤ r) := by
  cases h with
  | zero h => exact ⟨0, h, hq, id⟩
  | @finite sign q u hpos hu hx =>
      obtain ⟨m', e', hbound, rfl⟩ := hβ
      rw [abs_signed sign hpos.le] at hq
      obtain ⟨m, e, hcanonical, rfl, hle⟩ := hu.le hbound.toCanonical hq
      have hsign (r : ℚ) (hr : 0 ≤ r) : 0 ≤ signed sign q → 0 ≤ signed sign r := by
        cases sign with
        | negative => exact fun hnonneg => absurd hnonneg (not_le.mpr (signed_negative_lt hpos))
        | positive => exact fun _ => hr
      rcases Nat.eq_zero_or_pos m with rfl | hm
      · refine ⟨0, hx ▸ exact_packed_zero sign, ?_, fun _ => le_rfl⟩
        rw [abs_zero]
        exact hpos.le.trans hq
      · have hrepresentable : Representable .binary32 m e := by
          have hbounded := hbound.bounded
          exact ⟨hcanonical, hm, by omega⟩
        have hnonneg : (0 : ℚ) ≤ m * 2 ^ e := by positivity
        refine ⟨_, hx ▸ exact_packed hrepresentable sign, ?_, hsign _ hnonneg⟩
        rw [abs_signed sign hnonneg, ← compare_le_iff_le,
          ← compare_magnitudes hrepresentable hbound]
        rcases hle with he | ⟨rfl, hle⟩
        · rw [compare_lt_iff_lt.mpr he, Ordering.lt_then]
          exact Ordering.noConfusion
        · rw [compare_eq_iff_eq.mpr rfl, Ordering.eq_then]
          exact compare_le_iff_le.mpr hle

/-- Nor does it lead below such a bound. -/
theorem ge (h : Rounded x q) (hx : Exact x p) (hβ : Precise β) (hq : β ≤ |q|) : β ≤ |p| := by
  obtain ⟨m', e', hbound, rfl⟩ := hβ
  have hβ : (0 : ℚ) < m' * 2 ^ e' := by
    have hpos : (0 : ℚ) < m' := by exact_mod_cast hbound.pos
    positivity
  cases h with
  | zero =>
      rw [abs_zero] at hq
      exact absurd hq (not_le.mpr hβ)
  | @finite sign q u hpos hu hpacked =>
      rw [abs_signed sign hpos.le] at hq
      obtain ⟨m, e, hcanonical, rfl, hge⟩ := hu.ge hbound.toCanonical hq
      have hleast := hbound.least
      have hm : 0 < m := by
        rcases hge with he | ⟨rfl, hle⟩
        · have hfull := hcanonical.full.resolve_left (hleast.trans_lt he).ne'
          exact (Nat.two_pow_pos _).trans_le hfull
        · exact hbound.pos.trans_le hle
      have he : e ≤ 104 := by
        by_contra he
        rw [scaled_of_pos hm, packed_overflow hm (not_le.mp he)] at hpacked
        exact hx.not_infinity sign hpacked
      have hrepresentable : Representable .binary32 m e := by
        refine ⟨hcanonical, hm, ?_⟩
        change e + 127 + 23 + 1 < 2 ^ 8
        omega
      rw [hpacked] at hx
      rw [hx.unique (exact_packed hrepresentable sign), abs_signed sign (by positivity),
        ← compare_le_iff_le, ← compare_magnitudes hbound hrepresentable]
      rcases hge with he | ⟨rfl, hle⟩
      · rw [compare_lt_iff_lt.mpr he, Ordering.lt_then]
        exact Ordering.noConfusion
      · rw [compare_eq_iff_eq.mpr rfl, Ordering.eq_then]
        exact compare_le_iff_le.mpr hle

/-- What needs no rounding is not changed. -/
theorem exact (h : Rounded x q) (hq : Precise |q|) : Exact x q := by
  cases h with
  | zero h => exact h
  | @finite sign q u hpos hu hx =>
      rw [abs_signed sign hpos.le] at hq
      obtain ⟨m, e, hrepresentable, rfl⟩ := hq
      rw [hx, hu.unique (Rounds.of_canonical hrepresentable.toCanonical sign)]
      exact exact_packed hrepresentable sign

theorem intCast {i : ℤ} (h : Rounded x i) (hi : i.natAbs < 2 ^ 24) : Exact x i := by
  rcases eq_or_ne i 0 with rfl | hne
  · generalize hq : ((0 : ℤ) : ℚ) = q at h
    cases h with
    | zero h => exact h
    | @finite sign q u hpos hu hx =>
        have habs := abs_signed sign hpos.le
        rw [← hq, Int.cast_zero, abs_zero] at habs
        exact absurd habs hpos.ne
  · refine h.exact ?_
    rw [← Int.cast_abs, Int.abs_eq_natAbs, Int.cast_natCast]
    exact precise_natCast (Int.natAbs_pos.mpr hne) hi

end Rounded

namespace Exact

theorem rounded (hx : Exact x q) : Rounded x q := by
  cases hx with
  | zero h => exact .zero (.zero h)
  | @finite sign q hx =>
      have hpos := hx.pos
      obtain ⟨m, e, hm, hview, rfl⟩ := hx
      refine .finite hpos
        (Rounds.of_canonical (representable_view hview).toCanonical sign) ?_
      rw [scaled_of_pos hm, ← hview, packed_view]

theorem mul (hx : Exact x p) (hy : Exact y q) : Rounded (x * y) (p * q) := by
  have hmul : x * y = packed (UnpackedFloat.mul .binary32 (view x) (view y)) := rfl
  cases hx with
  | @zero s hx =>
      rw [zero_mul]
      cases hy with
      | @zero s' hy =>
          rw [hmul, hx, hy]
          exact .zero (exact_packed_zero (s * s'))
      | @finite s' q hy =>
          obtain ⟨n, f, hn, hview, -⟩ := hy
          rw [hmul, hx, hview]
          exact .zero (exact_packed_zero (s * s'))
  | @finite s p hx =>
      have hpos := hx.pos
      obtain ⟨m, e, hm, hview, rfl⟩ := hx
      cases hy with
      | @zero s' hy =>
          rw [mul_zero, hmul, hview, hy]
          exact .zero (exact_packed_zero (s * s'))
      | @finite s' q hy =>
          have hpos' := hy.pos
          obtain ⟨n, f, hn, hview', rfl⟩ := hy
          have hfine : Fine .binary32 (m * n) (e + f) :=
            (representable_view hview).fine_mul (representable_view hview').toCanonical hm hn
          rw [← signed_mul, hmul, hview, hview']
          exact .finite (mul_pos hpos hpos') (mul_rounds .binary32 e f s s' hm hn hfine) rfl

theorem div (hx : Exact x p) (hy : Exact y q) (hq : q ≠ 0) : Rounded (x / y) (p / q) := by
  cases hy with
  | zero hy => exact absurd rfl hq
  | @finite s' q hy =>
      have hpos' := hy.pos
      cases hx with
      | @zero s hx =>
          obtain ⟨n, f, hn, hview, -⟩ := hy
          have hdiv : x / y = packed (.zero (s / s')) := by
            change packed (UnpackedFloat.div .binary32 (view x) (view y)) = _
            rw [hx, hview]
            rfl
          rw [zero_div, hdiv]
          exact .zero (exact_packed_zero _)
      | @finite s p hx =>
          have hpos := hx.pos
          obtain ⟨u, hu, hdiv⟩ := exists_div_eq_packed hx hy
          rw [← signed_div]
          exact .finite (div_pos hpos hpos') hu hdiv

theorem div_one (hx : Exact x q) : x / 1.0 = x := by
  cases hx with
  | @zero sign hview =>
      have hdiv : x / 1.0 = packed (.zero (sign / .positive)) := by
        change packed (UnpackedFloat.div .binary32 (view x) (view 1.0)) = _
        rw [hview, view_one]
        rfl
      rw [hdiv, ← packed_view x, hview]
      cases sign <;> rfl
  | @finite sign q hvalue =>
      have hone : HasValue 1.0 .positive 1 := ⟨_, _, _, view_one, by norm_num⟩
      have hsign : sign / .positive = sign := by cases sign <;> rfl
      have hquotient : q / 1 = q := by norm_num
      have hrounds : Rounds .binary32 (sign / .positive) (q / 1) (view x) := by
        obtain ⟨m, e, hm, hview, rfl⟩ := hvalue
        have hexact := Rounds.of_canonical (representable_view hview).toCanonical sign
        rwa [hquotient, hsign, hview, ← scaled_of_pos hm]
      rw [div_eq_packed hvalue hone hrounds, packed_view]

/-! ## Sums -/

theorem rounded_normalize (i e : ℤ) (zeroSign : Sign) :
    Rounded (packed (UnpackedFloat.normalize .binary32 i e zeroSign)) (i * 2 ^ e) := by
  unfold UnpackedFloat.normalize
  rcases lt_trichotomy i 0 with hi | rfl | hi
  · have hpos : 0 < (-i).toNat := by omega
    have hvalue : (i : ℚ) * 2 ^ e = signed .negative ((-i).toNat * 2 ^ e) := by
      have hcast : (((-i).toNat : ℤ) : ℚ) = ((-i : ℤ) : ℚ) := by rw [Int.toNat_of_nonneg (by omega)]
      rw [Int.cast_natCast] at hcast
      change _ = -_
      rw [hcast]
      push_cast
      ring
    have hcast : (0 : ℚ) < (-i).toNat := by exact_mod_cast hpos
    rw [compare_lt_iff_lt.mpr hi, hvalue]
    exact .finite (by positivity) (round_rounds .binary32 .negative e hpos) rfl
  · rw [compare_eq_iff_eq.mpr rfl, Int.cast_zero, zero_mul]
    exact .zero (exact_packed_zero _)
  · have hpos : 0 < i.toNat := by omega
    have hvalue : (i : ℚ) * 2 ^ e = signed .positive (i.toNat * 2 ^ e) := by
      have hcast : ((i.toNat : ℤ) : ℚ) = (i : ℚ) := by rw [Int.toNat_of_nonneg hi.le]
      rw [Int.cast_natCast] at hcast
      change _ = _ * _
      rw [hcast]
    have hcast : (0 : ℚ) < i.toNat := by exact_mod_cast hpos
    rw [compare_gt_iff_gt.mpr hi, hvalue]
    exact .finite (by positivity) (round_rounds .binary32 .positive e hpos) rfl

/-- A significand moved to a lower exponent. -/
theorem apply_decreaseExponent (sign : Sign) (m : ℕ) {e f : ℤ} (hf : f ≤ e) :
    ((sign.apply (decreaseExponent m e f).1 : ℤ) : ℚ) * 2 ^ f = signed sign (m * 2 ^ e) := by
  have hshift : ((m <<< (e - f).toNat : ℕ) : ℚ) * 2 ^ f = m * 2 ^ e := by
    rw [Nat.shiftLeft_eq]
    push_cast
    rw [mul_assoc, ← zpow_natCast, ← zpow_add₀ two_ne_zero]
    congr 2
    omega
  cases sign with
  | negative =>
      change ((-((m <<< (e - f).toNat : ℕ) : ℤ) : ℤ) : ℚ) * 2 ^ f = -(m * 2 ^ e)
      rw [← hshift, Int.cast_neg, Int.cast_natCast, neg_mul]
  | positive => exact_mod_cast hshift

theorem add (hx : Exact x p) (hy : Exact y q) : Rounded (x + y) (p + q) := by
  have hadd : x + y = packed (UnpackedFloat.add .binary32 (view x) (view y)) := rfl
  cases hx with
  | @zero s hx =>
      cases hy with
      | @zero s' hy =>
          rw [hadd, hx, hy, add_zero]
          refine .zero ?_
          cases s <;> cases s' <;> exact exact_packed_zero _
      | @finite s' q hy =>
          have hsame : x + y = y := by
            obtain ⟨n, f, hn, hview, -⟩ := hy
            rw [hadd, hx, hview]
            exact (congrArg packed hview.symm).trans (packed_view y)
          rw [zero_add, hsame]
          exact (Exact.finite hy).rounded
  | @finite s p hx =>
      cases hy with
      | @zero s' hy =>
          have hsame : x + y = x := by
            obtain ⟨m, e, hm, hview, -⟩ := hx
            rw [hadd, hview, hy]
            exact (congrArg packed hview.symm).trans (packed_view x)
          rw [add_zero, hsame]
          exact (Exact.finite hx).rounded
      | @finite s' q hy =>
          obtain ⟨m, e, hm, hview, rfl⟩ := hx
          obtain ⟨n, f, hn, hview', rfl⟩ := hy
          have hsum := rounded_normalize
            (s.apply (decreaseExponent m e (min e f)).1 +
              s'.apply (decreaseExponent n f (min e f)).1)
            (min e f) .positive
          rw [Int.cast_add, add_mul, apply_decreaseExponent s m (min_le_left e f),
            apply_decreaseExponent s' n (min_le_right e f)] at hsum
          rw [hadd, hview, hview']
          exact hsum

theorem apply_neg (sign : Sign) (i : ℤ) : (-sign).apply i = -sign.apply i := by
  cases sign
  · exact (neg_neg i).symm
  · rfl

/-- To subtract is to add the negative. -/
theorem sub_eq (hx : Exact x p) (hy : Exact y q) : x - y = x + -y := by
  change packed (UnpackedFloat.sub .binary32 (view x) (view y)) =
    packed (UnpackedFloat.add .binary32 (view x) (view (-y)))
  rw [hy.view_neg]
  refine congrArg packed ?_
  cases hx with
  | zero hx =>
      rw [hx]
      cases hy with
      | zero hy => rw [hy]; rfl
      | finite hy =>
          obtain ⟨n, f, hn, hview, -⟩ := hy
          rw [hview]
          rfl
  | finite hx =>
      obtain ⟨m, e, hm, hview, -⟩ := hx
      rw [hview]
      cases hy with
      | zero hy => rw [hy]; rfl
      | finite hy =>
          obtain ⟨n, f, hn, hview', -⟩ := hy
          rw [hview']
          refine congrArg (UnpackedFloat.normalize .binary32 · (min e f) .positive) ?_
          rw [apply_neg]
          exact Int.sub_eq_add_neg

theorem sub (hx : Exact x p) (hy : Exact y q) : Rounded (x - y) (p - q) := by
  rw [hx.sub_eq hy, sub_eq_add_neg]
  exact hx.add hy.neg

/-! ## Whole numbers -/

theorem signed_natCast (sign : Sign) (k : ℕ) : signed sign k = ((sign.apply k : ℤ) : ℚ) := by
  cases sign
  · change -(k : ℚ) = ((-(k : ℤ) : ℤ) : ℚ)
    rw [Int.cast_neg, Int.cast_natCast]
  · rfl

/-- What is left when the fraction is cut off. -/
theorem exists_int {k : ℕ} (sign : Sign) (hx : Exact x (signed sign k)) (hk : (k : ℚ) ≤ q)
    (hq : 0 < q) :
    ∃ i : ℤ, Exact x i ∧ |(i : ℚ)| ≤ |signed sign q| ∧ (0 ≤ signed sign q → 0 ≤ i) := by
  refine ⟨sign.apply k, signed_natCast sign k ▸ hx, ?_, ?_⟩
  · rw [← signed_natCast, abs_signed sign (Nat.cast_nonneg k), abs_signed sign hq.le]
    exact hk
  · intro hnonneg
    cases sign with
    | negative => exact absurd hnonneg (not_le.mpr (signed_negative_lt hq))
    | positive => exact Int.natCast_nonneg k

theorem trunc (hx : Exact x q) :
    ∃ i : ℤ, Exact (Single.trunc x) i ∧ |(i : ℚ)| ≤ |q| ∧ (0 ≤ q → 0 ≤ i) := by
  cases hx with
  | @zero sign hview =>
      have hsame : Single.trunc x = x := by
        unfold Single.trunc
        rw [hview]
      refine ⟨0, ?_, by simp, fun _ => le_rfl⟩
      rw [hsame, Int.cast_zero]
      exact .zero hview
  | @finite sign q hx =>
      have hpos := hx.pos
      have hexact := Exact.finite hx
      obtain ⟨m, e, hm, hview, rfl⟩ := hx
      unfold Single.trunc
      rw [hview]
      dsimp only
      split
      next he =>
        have hwhole : ((m * 2 ^ e.toNat : ℕ) : ℚ) = m * 2 ^ e := by
          rw [Nat.cast_mul, Nat.cast_pow, Nat.cast_ofNat, ← zpow_natCast, Int.toNat_of_nonneg he]
        exact exists_int sign (hwhole ▸ hexact) hwhole.le hpos
      next he =>
        have hfits : m < 2 ^ 24 := (representable_view hview).fits
        have hle : m >>> (-e).toNat ≤ m := Nat.shiftRight_le m _
        have hscale : (2 : ℚ) ^ e * 2 ^ (-e).toNat = 1 := by
          rw [← zpow_natCast, ← zpow_add₀ two_ne_zero, Int.toNat_of_nonneg (by omega),
            add_neg_cancel, zpow_zero]
        have hcut : ((m >>> (-e).toNat : ℕ) : ℚ) ≤ m * 2 ^ e := by
          have hmul : ((m >>> (-e).toNat * 2 ^ (-e).toNat : ℕ) : ℚ) ≤ m := by
            rw [Nat.shiftRight_eq_div_pow]
            exact_mod_cast Nat.div_mul_le_self m _
          push_cast at hmul
          calc ((m >>> (-e).toNat : ℕ) : ℚ)
              = (m >>> (-e).toNat : ℕ) * 2 ^ (-e).toNat * 2 ^ e := by
                rw [mul_assoc, mul_comm (2 ^ (-e).toNat : ℚ), hscale, mul_one]
            _ ≤ m * 2 ^ e := by gcongr
        refine exists_int sign ?_ hcut hpos
        generalize m >>> (-e).toNat = k at hle ⊢
        change Exact (packed (nearest .binary32 (scaled sign k 0))) _
        rcases Nat.eq_zero_or_pos k with rfl | hk
        · rw [signed_natCast]
          cases sign <;> exact exact_packed_zero _
        · have hround := hasValue_round (e := 0) hk (by omega) (by decide) (by decide) sign
          rw [zpow_zero, mul_one] at hround
          rw [scaled_of_pos hk]
          exact .finite hround

end Exact

/-! ## Cutting off -/

theorem not_lt_of_view_infinity (hx : view x = .infinity .positive) (hy : Exact y q) :
    ¬ x < y ∧ y < x := by
  rw [lt_iff_view, lt_iff_view, hx]
  cases hy with
  | zero hy =>
      rw [hy]
      exact ⟨Bool.false_ne_true, rfl⟩
  | @finite sign q hy =>
      obtain ⟨n, f, hn, hview, -⟩ := hy
      rw [hview]
      cases sign <;> exact ⟨Bool.false_ne_true, rfl⟩

theorem lt_of_view_negative_infinity (hx : view x = .infinity .negative) (hy : Exact y q) :
    x < y := by
  rw [lt_iff_view, hx]
  cases hy with
  | zero hy =>
      rw [hy]
      rfl
  | @finite sign q hy =>
      obtain ⟨n, f, hn, hview, -⟩ := hy
      rw [hview]
      cases sign <;> rfl

/-- What passes neither bound is between them. -/
theorem exact_clamp {low high : Float32} {l h : ℚ} (hl : Exact low l) (hh : Exact high h)
    (hle : l ≤ h) (hx : ¬ x.isNaN) : ∃ q, Exact (clamp low high x) q ∧ l ≤ q ∧ q ≤ h := by
  have hlow : ¬ low > high := fun hlt => not_lt.mpr hle ((hh.lt_iff hl).mp hlt)
  unfold clamp
  dsimp only
  cases hview : view x with
  | notANumber =>
      change ¬ (view x).isNaN = true at hx
      rw [hview] at hx
      exact absurd rfl hx
  | infinity sign =>
      cases sign with
      | negative =>
          rw [if_pos (lt_of_view_negative_infinity hview hl), if_neg hlow]
          exact ⟨l, hl, le_rfl, hle⟩
      | positive =>
          rw [if_neg (not_lt_of_view_infinity hview hl).1,
            if_pos (not_lt_of_view_infinity hview hh).2]
          exact ⟨h, hh, hle, le_rfl⟩
  | _ =>
      obtain ⟨q, hq⟩ := exists_exact (x := x) (by rw [hview]; exact nofun)
        (fun sign => by rw [hview]; exact nofun)
      by_cases hxl : x < low
      · rw [if_pos hxl, if_neg hlow]
        exact ⟨l, hl, le_rfl, hle⟩
      · rw [if_neg hxl]
        by_cases hxh : x > high
        · rw [if_pos hxh]
          exact ⟨h, hh, hle, le_rfl⟩
        · rw [if_neg hxh]
          have hlq : ¬ q < l := mt (hq.lt_iff hl).mpr hxl
          have hqh : ¬ h < q := mt (hh.lt_iff hq).mpr hxh
          exact ⟨q, hq, not_lt.mp hlq, not_lt.mp hqh⟩

theorem exists_exact_of_unit (hx : 0.0 ≤ x) (hx' : x ≤ 1.0) : ∃ q, Exact x q ∧ 0 ≤ q ∧ q ≤ 1 := by
  rw [le_iff_view, view_zero] at hx
  rw [le_iff_view, view_one] at hx'
  obtain ⟨q, hq⟩ : ∃ q, Exact x q := by
    refine exists_exact (fun hview => ?_) fun sign hview => ?_
    · rw [hview] at hx
      exact absurd hx Bool.false_ne_true
    · rw [hview] at hx hx'
      cases sign with
      | negative => exact absurd hx Bool.false_ne_true
      | positive => exact absurd hx' Bool.false_ne_true
  rw [← view_zero, ← le_iff_view, exact_zero.le_iff hq] at hx
  rw [← view_one, ← le_iff_view, hq.le_iff .one] at hx'
  exact ⟨q, hq, hx, hx'⟩

theorem larger_zero (hx : Exact x q) (hq : 0 ≤ q) : larger x 0.0 = x := by
  unfold larger
  rw [if_neg hx.not_isNaN, if_neg exact_zero.not_isNaN,
    if_neg (not_lt.mpr hq ∘ (hx.lt_iff exact_zero).mp)]

theorem roundToInt_positive (hm : (m : ℚ) * 2 ^ e = n) :
    UnpackedFloat.roundToInt .positive m e = n := by
  have hshift : ((m <<< e.toNat : ℕ) : ℚ) / 2 ^ (0 - (e - (e.toNat : ℤ))).toNat = n := by
    rw [← hm, Nat.shiftLeft_eq, div_eq_iff (by positivity)]
    push_cast
    rw [mul_assoc, ← zpow_natCast, ← zpow_natCast, ← zpow_add₀ two_ne_zero]
    congr 2
    omega
  have hstands := (Stands.exact (m <<< e.toNat)).shiftRight (0 - (e - (e.toNat : ℤ))).toNat
  rw [hshift] at hstands
  have hle := hstands.le
  have hlt := hstands.lt
  norm_cast at hle hlt
  have hmantissa := Nat.le_antisymm hle (Nat.le_of_lt_succ hlt)
  simp only [UnpackedFloat.roundToInt, decreaseExponent, UnpackedFloat.shiftToExponent, sub_zero]
  exact congrArg Nat.cast hmantissa

theorem toNat_toUInt64 (hx : Exact x n) (hn : n < 2 ^ 64) : x.toUInt64.toNat = n := by
  have htoInt : (view x).toInt 0 (UInt64.size - 1) = n := by
    generalize hq : (n : ℚ) = q at hx
    cases hx with
    | zero hx =>
        rw [hx, Nat.cast_eq_zero.mp hq]
        rfl
    | @finite sign q hx =>
        have hpos := hx.pos
        obtain ⟨m, e, hm, hview, rfl⟩ := hx
        rw [hview]
        cases sign with
        | negative =>
            have hneg := signed_negative_lt hpos
            rw [← hq] at hneg
            exact absurd hneg (not_lt.mpr (Nat.cast_nonneg n))
        | positive => exact roundToInt_positive hq.symm
  change (UInt64.ofNatClamp ((view x).toInt 0 (UInt64.size - 1)).toNat).toNat = n
  rw [htoInt, Int.toNat_natCast]
  unfold UInt64.ofNatClamp
  rw [dif_pos (show n < UInt64.size from hn), UInt64.toNat_ofNatLT]

end Patchbay.Single
