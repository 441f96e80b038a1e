import Patchbay.Proofs.Single.Arithmetic
import Patchbay.Proofs.Single.Packing

/-! # Values of single-precision numbers

A single-precision number is its sign and its exact value.  Small integers and decimals with few
digits are what they say; longer decimals are rounded once. -/

namespace Patchbay.Single

open Float.Model (Format UnpackedFloat totalExponent)
open Float.Model.UnpackedFloat (Sign)

variable {x y : Float32} {sign sign' : Sign} {p q : ℚ} {m n : ℕ} {e : ℤ} {u : UnpackedFloat}

/-- The number of an unpacked value that needs no rounding. -/
def packed (u : UnpackedFloat) : Float32 := ⟨.pack u⟩

/-- Numbers of the same bits are the same. -/
theorem eq_of_toBits (h : x.toModel.toBits = y.toModel.toBits) : x = y := by
  obtain ⟨bits, valid⟩ := x
  obtain ⟨bits', valid'⟩ := y
  obtain rfl : bits = bits' := h
  rfl

theorem packed_view (x : Float32) : packed (view x) = x :=
  eq_of_toBits (congrArg UInt32.ofBitVec (pack_unpack .binary32 (by decide) x.toModel.valid))

theorem view_packed (h : Representable .binary32 m e) (sign : Sign) :
    view (packed (.finite sign m e h.pos)) = .finite sign m e h.pos := unpack_pack h sign

theorem representable_view {h : 0 < m} (hx : view x = .finite sign m e h) :
    Representable .binary32 m e := representable_unpack (by decide) hx

/-- A number that is finite, of a sign, and of a magnitude that is not zero. -/
def HasValue (x : Float32) (sign : Sign) (q : ℚ) : Prop :=
  ∃ m e, ∃ h : 0 < m, view x = .finite sign m e h ∧ (m : ℚ) * 2 ^ e = q

theorem hasValue_packed (h : Representable .binary32 m e) (sign : Sign) :
    HasValue (packed (.finite sign m e h.pos)) sign (m * 2 ^ e) :=
  ⟨m, e, h.pos, view_packed h sign, rfl⟩

/-- A number that is too large for the format is written as infinity. -/
theorem packed_overflow (hm : 0 < m) (he : 104 < e) (sign : Sign) :
    packed (.finite sign m e hm) = packed (.infinity sign) := by
  have hexponent : 2 ^ Format.binary32.exponentBits ≤
      (e + Format.binary32.exponentBias + Format.binary32.mantissaBitsWithoutImplicit).toNat + 1 := by
    change 2 ^ 8 ≤ (e + 127 + 23).toNat + 1
    omega
  have hpack : UnpackedFloat.pack .binary32 (.finite sign m e hm) =
      UnpackedFloat.packedInfinity .binary32 sign := if_pos hexponent
  exact eq_of_toBits (congrArg UInt32.ofBitVec hpack)

theorem view_packed_infinity (sign : Sign) : view (packed (.infinity sign)) = .infinity sign := by
  cases sign <;> rfl

/-! ## Arithmetic -/

theorem exists_div_eq_packed (hx : HasValue x sign p) (hy : HasValue y sign' q) :
    ∃ u, Rounds .binary32 (sign / sign') (p / q) u ∧ x / y = packed u := by
  obtain ⟨m, e, hm, hview, rfl⟩ := hx
  obtain ⟨n, f, hn, hview', rfl⟩ := hy
  refine ⟨_, div_rounds .binary32 _ _ sign sign' hm hn, ?_⟩
  change packed (UnpackedFloat.div .binary32 (view x) (view y)) = _
  rw [hview, hview']

theorem div_eq_packed (hx : HasValue x sign p) (hy : HasValue y sign' q)
    (h : Rounds .binary32 (sign / sign') (p / q) u) : x / y = packed u := by
  obtain ⟨v, hv, hquotient⟩ := exists_div_eq_packed hx hy
  rw [hquotient, hv.unique h]

/-- Of a product, enough bits are known: a factor with few bits is very small. -/
theorem Canonical.fine_mul {format : Format} {m₁ m₂ : ℕ} {e₁ e₂ : ℤ} (h₁ : Canonical format m₁ e₁)
    (h₂ : Canonical format m₂ e₂) (hm₁ : 0 < m₁) (hm₂ : 0 < m₂) :
    Fine format (m₁ * m₂) (e₁ + e₂) := by
  have hleast := minExponent_add format
  have hbits := format.hm
  rcases h₁.full with he₁ | hfull
  · rcases h₂.full with he₂ | hfull
    · right
      omega
    · exact .inl (hfull.trans (Nat.le_mul_of_pos_left _ hm₁))
  · exact .inl (hfull.trans (Nat.le_mul_of_pos_right _ hm₂))

theorem mul_eq_packed (hx : HasValue x sign p) (hy : HasValue y sign' q)
    (h : Rounds .binary32 (sign * sign') (p * q) u) : x * y = packed u := by
  obtain ⟨m, e, hm, hview, rfl⟩ := hx
  obtain ⟨n, f, hn, hview', rfl⟩ := hy
  change packed (UnpackedFloat.mul .binary32 (view x) (view y)) = packed u
  have hfine : Fine .binary32 (m * n) (e + f) :=
    (representable_view hview).fine_mul (representable_view hview').toCanonical hm hn
  rw [hview, hview', (mul_rounds .binary32 _ _ sign sign' hm hn hfine).unique h]

theorem neg_packed (h : Representable .binary32 m e) (sign : Sign) :
    -packed (.finite sign m e h.pos) = packed (.finite (-sign) m e h.pos) := by
  change packed (view (packed (.finite sign m e h.pos))).neg = _
  rw [view_packed h sign]
  rfl

/-! ## Small integers -/

/-- An integer with no more bits than a significand is a number of the format, and so are its
multiples by powers of two within the range. -/
theorem exists_representable (hpos : 0 < n) (hlt : n < 2 ^ 24) (hlow : -126 ≤ e) (hhigh : e ≤ 104) :
    ∃ m f, Representable .binary32 m f ∧ (m : ℚ) * 2 ^ f = n * 2 ^ e := by
  obtain ⟨k, hk⟩ := Nat.le.dest (Nat.le_of_lt_succ ((Nat.log2_lt hpos.ne').mpr hlt))
  have hfull : 2 ^ 23 ≤ n * 2 ^ k := by
    calc 2 ^ 23 = 2 ^ n.log2 * 2 ^ k := by rw [← Nat.pow_add, hk]
      _ ≤ n * 2 ^ k := Nat.mul_le_mul_right _ (Nat.log2_self_le hpos.ne')
  have hfits : n * 2 ^ k < 2 ^ 24 := by
    calc n * 2 ^ k < 2 ^ (n.log2 + 1) * 2 ^ k :=
          Nat.mul_lt_mul_of_pos_right Nat.lt_log2_self (Nat.two_pow_pos k)
      _ = 2 ^ 24 := by rw [← Nat.pow_add, Nat.add_right_comm, hk]
  have hleast : Format.binary32.minExponent = -149 := by decide
  have hbias : Format.binary32.exponentBias = 127 := by decide
  refine ⟨n * 2 ^ k, e - k, ⟨⟨by omega, hfits, .inr hfull⟩, by omega, ?_⟩, ?_⟩
  · rw [hbias]
    norm_num
    omega
  · push_cast
    rw [zpow_sub₀ two_ne_zero, zpow_natCast]
    field_simp

/-- Such a number is rounded to itself. -/
theorem hasValue_round (hpos : 0 < n) (hlt : n < 2 ^ 24) (hlow : -126 ≤ e) (hhigh : e ≤ 104)
    (sign : Sign) :
    HasValue (packed (UnpackedFloat.round .binary32 sign n e)) sign (n * 2 ^ e) := by
  obtain ⟨m, f, hrepresentable, hvalue⟩ := exists_representable hpos hlt hlow hhigh
  have hround := round_rounds .binary32 sign e hpos
  have hexact := Rounds.of_canonical hrepresentable.toCanonical sign
  rw [hvalue] at hexact
  rw [hround.unique hexact, scaled_of_pos hrepresentable.pos, ← hvalue]
  exact hasValue_packed hrepresentable sign

theorem hasValue_ofInt {i : ℤ} (hi : i ≠ 0) (hlt : i.natAbs < 2 ^ 24) :
    HasValue (ofInt i) (if i < 0 then .negative else .positive) i.natAbs := by
  have hpos : 0 < i.natAbs := Int.natAbs_pos.mpr hi
  have hround := hasValue_round (e := 0) hpos hlt (by decide) (by decide)
    (if i < 0 then .negative else .positive)
  rw [zpow_zero, mul_one] at hround
  change HasValue (packed (nearest .binary32 (viewOfInt i))) _ _
  rwa [viewOfInt, scaled_of_pos hpos]

theorem hasValue_toFloat32 (hpos : 0 < n) (hlt : n < 2 ^ 24) :
    HasValue n.toUInt64.toFloat32 .positive n := by
  have hn : n.toUInt64.toNat = n := by
    simp only [Nat.toUInt64_eq, UInt64.toNat_ofNat']
    omega
  change HasValue (packed (UnpackedFloat.normalize .binary32 (n.toUInt64.toNat : ℤ) 0 .positive))
    .positive n
  have hgt : compare (n : ℤ) 0 = .gt := Int.compare_eq_gt.mpr (by omega)
  rw [hn, UnpackedFloat.normalize, hgt]
  simpa using hasValue_round (e := 0) hpos hlt (by decide) (by decide) .positive

theorem zero_div_eq_packed (hx : HasValue x sign q) :
    ofInt 0 / x = packed (.zero (.positive / sign)) := by
  obtain ⟨m, e, hm, hview, -⟩ := hx
  change packed (UnpackedFloat.div .binary32 (.zero .positive) (view x)) = _
  rw [hview]
  rfl

/-! ## Decimals -/

/-- A power of ten is a power of five at another exponent. -/
theorem powersOfTen_eq (k : Fin 11) :
    Float32.exactlyRepresentablePowersOfTen[k] =
      packed (UnpackedFloat.round .binary32 .positive (5 ^ k.val) k.val) := by
  decide +revert

theorem hasValue_powersOfTen (k : Fin 11) :
    HasValue Float32.exactlyRepresentablePowersOfTen[k] .positive (10 ^ k.val) := by
  have hlt : 5 ^ k.val < 2 ^ 24 := by
    calc 5 ^ k.val ≤ 5 ^ 10 := Nat.pow_le_pow_right (by decide) (Nat.le_of_lt_succ k.isLt)
      _ < 2 ^ 24 := by decide
  have hvalue : ((5 ^ k.val : ℕ) : ℚ) * 2 ^ (k.val : ℤ) = 10 ^ k.val := by
    rw [zpow_natCast]
    push_cast
    rw [← mul_pow]
    norm_num
  rw [powersOfTen_eq, ← hvalue]
  exact hasValue_round (Nat.pow_pos (by decide)) hlt (by omega) (by omega) .positive

theorem ofScientific_eq_model {k : ℕ} (negative : Bool) (hslow : ¬ (n < 2 ^ 23 ∧ k ≤ 10)) :
    Float32.ofScientific n negative k = packed
      (UnpackedFloat.ofScientific .binary32 n (if negative then -(k : ℤ) else k)) := by
  have hexponent : (if negative then Int.negOfNat k else Int.ofNat k) =
      if negative then -(k : ℤ) else k := by
    cases negative
    · rfl
    · exact Int.negOfNat_eq
  unfold Float32.ofScientific
  rw [dif_neg hslow]
  change packed (UnpackedFloat.ofScientific .binary32 n _) = packed _
  rw [hexponent]

theorem scale_in_range {k : ℕ} {negative : Bool} (hk : k ≤ 256 + if negative then n.log2 else 0) :
    -(2 ^ Format.binary32.exponentBits + (n.log2 : ℤ)) ≤ (if negative then -(k : ℤ) else k) ∧
      (if negative then -(k : ℤ) else k) ≤ 2 ^ Format.binary32.exponentBits := by
  change -(256 + (n.log2 : ℤ)) ≤ _ ∧ _ ≤ (256 : ℤ)
  cases negative <;> simp only [Bool.false_eq_true, if_true, if_false] at hk ⊢ <;> omega

/-- A decimal that is not far out of the range is rounded once, from its exact value. -/
theorem ofScientific_eq_packed (hpos : 0 < n) {k : ℕ} {negative : Bool}
    (hk : k ≤ 256 + if negative then n.log2 else 0)
    (h : Rounds .binary32 .positive (n * 10 ^ (if negative then -(k : ℤ) else k)) u) :
    Float32.ofScientific n negative k = packed u := by
  by_cases hfew : n < 2 ^ 23 ∧ k ≤ 10
  · have hn := hasValue_toFloat32 hpos (hfew.1.trans (by decide))
    have hten := hasValue_powersOfTen ⟨k, Nat.lt_succ_of_le hfew.2⟩
    unfold Float32.ofScientific
    rw [dif_pos hfew]
    cases negative with
    | false =>
        rw [if_neg Bool.false_ne_true, zpow_natCast] at h
        exact mul_eq_packed hn hten h
    | true =>
        rw [if_pos rfl, zpow_neg, zpow_natCast, ← div_eq_mul_inv] at h
        exact div_eq_packed hn hten h
  · obtain ⟨hlow, hhigh⟩ := scale_in_range hk
    rw [ofScientific_eq_model negative hfew]
    exact congrArg packed ((ofScientific_rounds .binary32 hpos hlow hhigh).unique h)

/-! ## Order -/

theorem le_iff_view : x ≤ y ↔ (view x).le (view y) := decide_eq_true_iff
theorem lt_iff_view : x < y ↔ (view x).lt (view y) := decide_eq_true_iff

theorem view_zero : view 0.0 = .zero .positive := by rfl
theorem view_one : view 1.0 = .finite .positive (2 ^ 23) (-23) (by decide) := by rfl
theorem view_neg_one : view (-1.0) = .finite .negative (2 ^ 23) (-23) (by decide) := by rfl

theorem scaled_zero (sign : Sign) (e : ℤ) : scaled sign 0 e = .zero sign := rfl

/-- A number of at most one stays at most one when it is rounded. -/
theorem Rounds.le_one (h : Rounds .binary32 sign q u) (hq : q ≤ 1) :
    -1.0 ≤ packed u ∧ packed u ≤ 1.0 ∧ (sign = .positive → 0.0 ≤ packed u) := by
  have hone : Canonical .binary32 (2 ^ 23) (-23) := ⟨by decide, by decide, .inr (by decide)⟩
  obtain ⟨m, e, hcanonical, rfl, hle⟩ := h.le hone (by norm_num; exact hq)
  rcases Nat.eq_zero_or_pos m with rfl | hpos
  · rw [scaled_zero]
    refine ⟨?_, ?_, fun _ => ?_⟩ <;> cases sign <;> decide
  · have hbias : Format.binary32.exponentBias = 127 := by decide
    have hrepresentable : Representable .binary32 m e := by
      refine ⟨hcanonical, hpos, ?_⟩
      rw [hbias]
      norm_num
      omega
    rw [scaled_of_pos hpos, le_iff_view, le_iff_view, le_iff_view, view_packed hrepresentable,
      view_zero, view_one, view_neg_one]
    have hcompare : ((compare e (-23)).then (compare m (2 ^ 23))).isLE := by
      rcases hle with he | ⟨rfl, hm⟩
      · rw [Int.compare_eq_lt.mpr he]
        rfl
      · simpa [Ordering.then] using Nat.isLE_compare.mpr hm
    have hswap : ((compare (-23) e).then (compare (2 ^ 23) m)).swap.isLE := by
      rw [Ordering.swap_then, Int.compare_swap, Nat.compare_swap]
      exact hcompare
    cases sign with
    | negative => exact ⟨hswap, rfl, fun h => nomatch h⟩
    | positive => exact ⟨rfl, hcompare, fun _ => rfl⟩

end Patchbay.Single
