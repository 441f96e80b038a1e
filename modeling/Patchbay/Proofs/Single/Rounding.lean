import Mathlib.Algebra.Order.Field.Power
import Mathlib.Tactic.FieldSimp
import Mathlib.Tactic.Linarith
import Mathlib.Tactic.Positivity
import Mathlib.Tactic.Ring
import Patchbay.Single.Basic

/-! # Rounding

A number is rounded to a binary place, which depends on its size: to the nearest multiple of that
place, and at equal distance from two multiples to the even one.  So what a number is rounded to
depends on its exact value only, not on the significand, exponent and cut off bits that stand for
it. -/

namespace Patchbay.Single

open Float.Model (Format UnpackedFloat totalExponent)
open Float.Model.UnpackedFloat (Sign Accuracy ExtendedMantissa roundWithAccuracy shiftToExponent
  shiftToTargetExponent)

/-! ## The nearest integer -/

/-- No integer is nearer to `x` than `n`, and of two at equal distance `n` is the even one. -/
structure IsNearest (x : ℚ) (n : ℕ) : Prop where
  lower : (n : ℚ) - 1 / 2 ≤ x
  upper : x ≤ n + 1 / 2
  even : x = n - 1 / 2 ∨ x = n + 1 / 2 → n % 2 = 0

namespace IsNearest

variable {x : ℚ} {n k : ℕ}

theorem natCast (n : ℕ) : IsNearest n n :=
  ⟨by linarith, by linarith, fun h => by rcases h with h | h <;> linarith⟩

theorem le_of_le (h : IsNearest x n) (hx : x ≤ k) : n ≤ k := by
  by_contra hlt
  have hcast : ((k + 1 : ℕ) : ℚ) ≤ n := Nat.cast_le.mpr (Nat.lt_of_not_le hlt)
  have hlower := h.lower
  push_cast at hcast
  linarith

theorem le_of_ge (h : IsNearest x n) (hx : k ≤ x) : k ≤ n := by
  by_contra hlt
  have hcast : ((n + 1 : ℕ) : ℚ) ≤ k := Nat.cast_le.mpr (Nat.lt_of_not_le hlt)
  have hupper := h.upper
  push_cast at hcast
  linarith

theorem pos_iff (h : IsNearest x n) : 1 ≤ n ↔ 1 / 2 < x := by
  constructor
  · intro hn
    have hcast : (1 : ℚ) ≤ n := by exact_mod_cast hn
    refine lt_of_le_of_ne (by linarith [h.lower]) fun hhalf => ?_
    obtain rfl : n = 1 := Nat.le_antisymm (h.le_of_le (by rw [← hhalf]; norm_num)) hn
    exact absurd (h.even (.inl (by rw [← hhalf]; norm_num))) (by decide)
  · intro hx
    have hcast : (0 : ℚ) < n := by linarith [h.upper]
    exact_mod_cast hcast

/-- Between two integers at equal distance there is no even one but the nearest. -/
private theorem not_lt (hn : IsNearest x n) (hk : IsNearest x k) : ¬ n < k := by
  intro hlt
  have hcast : ((n + 1 : ℕ) : ℚ) ≤ k := Nat.cast_le.mpr hlt
  have hupper := hn.upper
  have hlower := hk.lower
  push_cast at hcast
  have hx : x = n + 1 / 2 := by linarith
  have hsucc : k = n + 1 := by
    have hle : (k : ℚ) ≤ ((n + 1 : ℕ) : ℚ) := by push_cast; linarith
    have := Nat.cast_le.mp hle
    omega
  have hneven := hn.even (.inr hx)
  have hkeven := hk.even (.inl (by rw [hx, hsucc]; push_cast; ring))
  omega

theorem unique (hn : IsNearest x n) (hk : IsNearest x k) : n = k :=
  Nat.le_antisymm (Nat.le_of_not_lt (hk.not_lt hn)) (Nat.le_of_not_lt (hn.not_lt hk))

end IsNearest

/-! ## Mantissas with bits cut off -/

/-- What a mantissa and the two bits behind it say of the number that they stand for. -/
def Stands (em : ExtendedMantissa) (x : ℚ) : Prop :=
  match em.roundBit, em.stickyBit with
  | false, false => x = em.mantissa
  | false, true => em.mantissa < x ∧ x < em.mantissa + 1 / 2
  | true, false => x = em.mantissa + 1 / 2
  | true, true => (em.mantissa : ℚ) + 1 / 2 < x ∧ x < em.mantissa + 1

namespace Stands

variable {em : ExtendedMantissa} {x : ℚ}

theorem exact (m : ℕ) : Stands (.ofMantissaAndAccuracy m .exact) m := rfl

/-- The two bits behind the mantissa say whether it is exact. -/
theorem exact_or_between (h : Stands em x) :
    if em.roundBit || em.stickyBit then em.mantissa < x ∧ x < em.mantissa + 1
    else x = em.mantissa := by
  obtain ⟨m, _ | _, _ | _⟩ := em
  · exact h
  · exact ⟨h.1, by linarith [h.2]⟩
  · obtain rfl : x = m + 1 / 2 := h
    exact ⟨by simp, by change (m : ℚ) + 1 / 2 < m + 1; linarith⟩
  · exact ⟨by linarith [h.1], h.2⟩

theorem le (h : Stands em x) : em.mantissa ≤ x := by
  have hexact := h.exact_or_between
  split at hexact
  · exact hexact.1.le
  · exact hexact.ge

theorem lt (h : Stands em x) : x < em.mantissa + 1 := by
  have hexact := h.exact_or_between
  split at hexact
  · exact hexact.2
  · linarith

theorem isNearest (h : Stands em x) : IsNearest x em.roundedMantissa := by
  obtain ⟨m, roundBit, stickyBit⟩ := em
  cases roundBit with
  | false =>
      cases stickyBit with
      | false =>
          obtain rfl : x = m := h
          exact .natCast m
      | true =>
          obtain ⟨hlow, hhigh⟩ : (m : ℚ) < x ∧ x < m + 1 / 2 := h
          exact ⟨by change (m : ℚ) - 1 / 2 ≤ x; linarith, hhigh.le, fun hx => by
            change x = (m : ℚ) - 1 / 2 ∨ x = m + 1 / 2 at hx
            rcases hx with hx | hx <;> linarith⟩
  | true =>
      cases stickyBit with
      | false =>
          obtain rfl : x = m + 1 / 2 := h
          change IsNearest _ (m + m % 2)
          rcases Nat.mod_two_eq_zero_or_one m with hm | hm
          · rw [hm]
            exact ⟨by push_cast; linarith, by push_cast; linarith, fun _ => by omega⟩
          · rw [hm]
            exact ⟨by push_cast; linarith, by push_cast; linarith, fun _ => by omega⟩
      | true =>
          obtain ⟨hlow, hhigh⟩ : (m : ℚ) + 1 / 2 < x ∧ x < m + 1 := h
          change IsNearest _ (m + 1)
          exact ⟨by push_cast; linarith, by push_cast; linarith, fun hx => by
            push_cast at hx
            rcases hx with hx | hx <;> linarith⟩

/-- The lowest bit becomes the round bit, and what was behind it is kept as sticky. -/
theorem shiftRightOne (h : Stands em x) : Stands em.shiftRightOne (x / 2) := by
  have hexact := h.exact_or_between
  have hsplit : (em.mantissa : ℚ) = 2 * (em.mantissa / 2 : ℕ) + (em.mantissa % 2 : ℕ) := by
    exact_mod_cast (Nat.div_add_mod em.mantissa 2).symm
  unfold Stands
  simp only [ExtendedMantissa.shiftRightOne]
  generalize (em.roundBit || em.stickyBit) = inexact at hexact ⊢
  rcases Nat.mod_two_eq_zero_or_one em.mantissa with hm | hm
  · rw [hm, Nat.cast_zero, add_zero] at hsplit
    rw [hm]
    cases inexact with
    | false =>
        change x / 2 = _
        linarith [show x = em.mantissa from hexact]
    | true =>
        obtain ⟨hlow, hhigh⟩ : (em.mantissa : ℚ) < x ∧ x < em.mantissa + 1 := hexact
        exact ⟨by linarith, by linarith⟩
  · rw [hm, Nat.cast_one] at hsplit
    rw [hm]
    cases inexact with
    | false =>
        change x / 2 = _ + 1 / 2
        linarith [show x = em.mantissa from hexact]
    | true =>
        obtain ⟨hlow, hhigh⟩ : (em.mantissa : ℚ) < x ∧ x < em.mantissa + 1 := hexact
        exact ⟨by linarith, by linarith⟩

theorem shiftRight (h : Stands em x) (n : ℕ) : Stands (em >>> n) (x / 2 ^ n) := by
  change Stands (n.repeat ExtendedMantissa.shiftRightOne em) _
  induction n with
  | zero => simpa [Nat.repeat] using h
  | succ n ih =>
      rw [Nat.repeat, pow_succ, ← div_div]
      exact ih.shiftRightOne

end Stands

/-! ## Places -/

variable {format : Format} {x : ℚ} {m n : ℕ} {e t : ℤ} {sign : Sign} {acc : Accuracy}

/-- The place to which a format rounds `x`, which has as many bits before that place as the format
has, or fewer at the least place of the format. -/
structure Place (format : Format) (x : ℚ) (t : ℤ) : Prop where
  least : format.minExponent ≤ t
  fits : x / 2 ^ t < 2 ^ format.mantissaBits
  full : t = format.minExponent ∨ 2 ^ format.mantissaBitsWithoutImplicit ≤ x / 2 ^ t

theorem mantissaBits_eq (format : Format) :
    format.mantissaBits = 1 + format.mantissaBitsWithoutImplicit := rfl

theorem two_pow_mantissaBits (format : Format) :
    2 ^ format.mantissaBits = 2 * 2 ^ format.mantissaBitsWithoutImplicit := by
  rw [mantissaBits_eq, Nat.pow_add]

theorem two_pow_mantissaBits_cast (format : Format) :
    (2 : ℚ) ^ format.mantissaBits = 2 * 2 ^ format.mantissaBitsWithoutImplicit := by
  exact_mod_cast two_pow_mantissaBits format

/-- A number that fits at one place does not fill a higher one. -/
theorem le_of_fits {t' : ℤ} (hfits : x < 2 ^ format.mantissaBits * 2 ^ t)
    (hfull : 2 ^ format.mantissaBitsWithoutImplicit * 2 ^ t' ≤ x) : t' ≤ t := by
  by_contra hlt
  have htwo : (2 : ℚ) * 2 ^ t ≤ 2 ^ t' := by
    rw [← zpow_one_add₀ two_ne_zero]
    exact zpow_le_zpow_right₀ one_le_two (by omega)
  have hle : (2 : ℚ) ^ format.mantissaBits * 2 ^ t ≤ x := by
    calc (2 : ℚ) ^ format.mantissaBits * 2 ^ t
        = 2 ^ format.mantissaBitsWithoutImplicit * (2 * 2 ^ t) := by
          rw [two_pow_mantissaBits_cast]
          ring
      _ ≤ 2 ^ format.mantissaBitsWithoutImplicit * 2 ^ t' := by gcongr
      _ ≤ x := hfull
  exact absurd hfits (not_lt.mpr hle)

theorem Place.le {t t' : ℤ} (h : Place format x t) (h' : Place format x t') : t' ≤ t := by
  rcases h'.full with heq | hfull
  · exact heq.le.trans h.least
  · exact le_of_fits ((div_lt_iff₀ (by positivity)).mp h.fits)
      ((le_div_iff₀ (by positivity)).mp hfull)

theorem Place.unique {t t' : ℤ} (h : Place format x t) (h' : Place format x t') : t = t' :=
  le_antisymm (h'.le h) (h.le h')

/-! ## Rounding to a format -/

/-- A rounded significand at a place.  The power of two that has a bit too many is written with half
the significand. -/
def carried (format : Format) (sign : Sign) (n : ℕ) (t : ℤ) : UnpackedFloat :=
  if n < 2 ^ format.mantissaBits then scaled sign n t
  else scaled sign (2 ^ format.mantissaBitsWithoutImplicit) (t + 1)

/-- The number of a format that `± x` is rounded to is `u`. -/
def Rounds (format : Format) (sign : Sign) (x : ℚ) (u : UnpackedFloat) : Prop :=
  ∃ t n, Place format x t ∧ IsNearest (x / 2 ^ t) n ∧ u = carried format sign n t

theorem Rounds.unique {u v : UnpackedFloat} (hu : Rounds format sign x u)
    (hv : Rounds format sign x v) : u = v := by
  obtain ⟨t, n, ht, hn, rfl⟩ := hu
  obtain ⟨t', n', ht', hn', rfl⟩ := hv
  obtain rfl := ht.unique ht'
  obtain rfl := hn.unique hn'
  rfl

/-- A significand that has as many bits as a format, or an exponent that is no greater than the
least place: nothing is lost by cutting bits off. -/
def Fine (format : Format) (m : ℕ) (e : ℤ) : Prop :=
  2 ^ format.mantissaBitsWithoutImplicit ≤ m ∨ e ≤ format.minExponent

theorem Fine.le_targetExponent (h : Fine format m e) :
    e ≤ format.targetExponent (totalExponent m e) := by
  rw [Format.targetExponent, totalExponent, mantissaBits_eq]
  rcases h with hm | he
  · have hpos : m ≠ 0 := (Nat.lt_of_lt_of_le (Nat.two_pow_pos _) hm).ne'
    have hlog := (Nat.le_log2 hpos).mpr hm
    omega
  · omega

/-- The place at which the bits are cut off is the place of the number. -/
theorem Fine.place (h : Fine format m e) (hlow : m ≤ x) (hhigh : x < m + 1) :
    Place format (x * 2 ^ e) (format.targetExponent (totalExponent m e)) := by
  obtain ⟨k, hk⟩ := Int.le.dest h.le_targetExponent
  have hscale : x * 2 ^ e / 2 ^ (e + (k : ℤ)) = x / 2 ^ k := by
    rw [zpow_add₀ two_ne_zero, zpow_natCast]
    field_simp
  have htarget : e + (k : ℤ) = max ((m.log2 : ℤ) + e - format.mantissaBitsWithoutImplicit)
      format.minExponent := by
    rw [hk, Format.targetExponent, totalExponent, mantissaBits_eq]
    push_cast
    congr 1
    ring
  refine ⟨le_max_right _ _, ?_, ?_⟩
  · rw [← hk, hscale, div_lt_iff₀ (by positivity), ← pow_add]
    calc x < m + 1 := hhigh
      _ ≤ 2 ^ (m.log2 + 1) := by exact_mod_cast Nat.lt_log2_self (n := m)
      _ ≤ 2 ^ (format.mantissaBits + k) := by
          refine pow_le_pow_right₀ one_le_two ?_
          rw [mantissaBits_eq]
          omega
  · by_cases hmin : e + (k : ℤ) = format.minExponent
    · exact .inl (hk.symm.trans hmin)
    · right
      have hpos : m ≠ 0 := by
        rintro rfl
        rcases h with hm | he
        · exact absurd hm (Nat.not_le.mpr (Nat.two_pow_pos _))
        · simp only [Nat.log2_zero] at htarget
          omega
      rw [← hk, hscale, le_div_iff₀ (by positivity), ← pow_add]
      calc (2 : ℚ) ^ (format.mantissaBitsWithoutImplicit + k) = 2 ^ m.log2 := by
            congr 1
            omega
        _ ≤ m := by exact_mod_cast Nat.log2_self_le hpos
        _ ≤ x := hlow

/-- Cutting a significand with few enough bits changes nothing, and the power of two with one bit
too many is halved. -/
theorem scaled_shiftToTargetExponent (sign : Sign) (hn : n ≤ 2 ^ format.mantissaBits)
    (ht : format.minExponent ≤ t) :
    scaled sign (shiftToTargetExponent format n t .exact).1.mantissa
      (shiftToTargetExponent format n t .exact).2 = carried format sign n t := by
  unfold carried
  split
  next hlt =>
    have hlog : n.log2 < format.mantissaBits := by
      rcases Nat.eq_zero_or_pos n with rfl | hpos
      · simp [mantissaBits_eq]
      · exact (Nat.log2_lt hpos.ne').mpr hlt
    have htarget : (format.targetExponent (totalExponent n t) - t).toNat = 0 := by
      unfold Format.targetExponent totalExponent
      omega
    simp only [shiftToTargetExponent, shiftToExponent, htarget, Nat.cast_zero, add_zero]
    rfl
  next hge =>
    obtain rfl : n = 2 ^ format.mantissaBits := by omega
    have htarget :
        (format.targetExponent (totalExponent (2 ^ format.mantissaBits) t) - t).toNat = 1 := by
      unfold Format.targetExponent totalExponent
      rw [Nat.log2_two_pow]
      omega
    have hhalf : 2 ^ format.mantissaBits / 2 = 2 ^ format.mantissaBitsWithoutImplicit := by
      rw [two_pow_mantissaBits]
      omega
    simp only [shiftToTargetExponent, shiftToExponent, htarget, Nat.cast_one]
    change scaled sign (2 ^ format.mantissaBits / 2) (t + 1) = _
    rw [hhalf]

/-- The place of a number leaves its significand no more bits than the format has. -/
theorem Place.le_two_pow (h : Place format x t) (hn : IsNearest (x / 2 ^ t) n) :
    n ≤ 2 ^ format.mantissaBits := by
  refine hn.le_of_le ?_
  push_cast
  exact h.fits.le

theorem roundWithAccuracy_rounds (sign : Sign) (hx : Stands (.ofMantissaAndAccuracy m acc) x)
    (h : Fine format m e) :
    Rounds format sign (x * 2 ^ e) (roundWithAccuracy format sign m e acc) := by
  have hmantissa : (ExtendedMantissa.ofMantissaAndAccuracy m acc).mantissa = m := by
    rcases acc with _ | _ | _ | _ <;> rfl
  have hplace : Place format (x * 2 ^ e) (format.targetExponent (totalExponent m e)) :=
    h.place (hmantissa ▸ hx.le) (hmantissa ▸ hx.lt)
  obtain ⟨k, hk⟩ := Int.le.dest h.le_targetExponent
  have hcut : shiftToTargetExponent format m e acc =
      (ExtendedMantissa.ofMantissaAndAccuracy m acc >>> k, e + (k : ℤ)) := by
    simp only [shiftToTargetExponent, shiftToExponent, ← hk, add_sub_cancel_left, Int.toNat_natCast]
  rw [← hk] at hplace
  have hnearest : IsNearest (x * 2 ^ e / 2 ^ (e + (k : ℤ)))
      (ExtendedMantissa.ofMantissaAndAccuracy m acc >>> k).roundedMantissa := by
    rw [zpow_add₀ two_ne_zero, zpow_natCast, mul_comm x, mul_div_mul_left _ _ (by positivity)]
    exact (hx.shiftRight k).isNearest
  refine ⟨e + k, _, hplace, hnearest, ?_⟩
  rw [← scaled_shiftToTargetExponent sign (hplace.le_two_pow hnearest) hplace.least]
  rw [roundWithAccuracy, hcut]
  rfl

/-! ## What is rounded to a number -/

/-- How a format writes a number: with all bits of a significand, or fewer at the least place. -/
structure Canonical (format : Format) (m : ℕ) (e : ℤ) : Prop where
  least : format.minExponent ≤ e
  fits : m < 2 ^ format.mantissaBits
  full : e = format.minExponent ∨ 2 ^ format.mantissaBitsWithoutImplicit ≤ m

theorem carried_of_canonical (h : Canonical format m e) (sign : Sign) :
    carried format sign m e = scaled sign m e := if_pos h.fits

/-- Below a power of two the numbers of a format are twice as close, so it takes half the distance
to be rounded up to the power. -/
theorem Rounds.of_below_two_pow (hleast : format.minExponent < e)
    (hlow : 2 ^ format.mantissaBitsWithoutImplicit - 1 / 4 ≤ x / 2 ^ e)
    (hhigh : x / 2 ^ e < 2 ^ format.mantissaBitsWithoutImplicit) (sign : Sign) :
    Rounds format sign x (scaled sign (2 ^ format.mantissaBitsWithoutImplicit) e) := by
  have htwo := two_pow_mantissaBits_cast format
  have hbits : (1 : ℚ) ≤ 2 ^ format.mantissaBitsWithoutImplicit := one_le_pow₀ one_le_two
  have hscale : x / 2 ^ (e - 1) = x / 2 ^ e * 2 := by
    rw [zpow_sub_one₀ two_ne_zero]
    field_simp
  have hplace : Place format x (e - 1) := by
    refine ⟨by omega, ?_, .inr ?_⟩
    · rw [hscale, htwo]
      linarith
    · rw [hscale]
      linarith
  have hnearest : IsNearest (x / 2 ^ (e - 1)) (2 ^ format.mantissaBits) := by
    rw [hscale, two_pow_mantissaBits]
    refine ⟨?_, ?_, fun _ => Nat.mul_mod_right ..⟩
    · push_cast
      linarith
    · push_cast
      linarith
  refine ⟨e - 1, 2 ^ format.mantissaBits, hplace, hnearest, ?_⟩
  rw [carried, if_neg (lt_irrefl _), sub_add_cancel]

/-- Every number that is nearest to a number of the format is rounded to it, but below a power of
two only if it is within half the distance. -/
theorem Rounds.of_isNearest (h : Canonical format m e) (hx : IsNearest (x / 2 ^ e) m)
    (hbelow : m = 2 ^ format.mantissaBitsWithoutImplicit → (m : ℚ) - 1 / 4 ≤ x / 2 ^ e)
    (sign : Sign) : Rounds format sign x (scaled sign m e) := by
  by_cases hplace : e = format.minExponent ∨
      (2 : ℚ) ^ format.mantissaBitsWithoutImplicit ≤ x / 2 ^ e
  · have hfits : (m : ℚ) + 1 ≤ 2 ^ format.mantissaBits := by exact_mod_cast h.fits
    have hupper := hx.upper
    exact ⟨e, m, ⟨h.least, by linarith, hplace⟩, hx, (carried_of_canonical h sign).symm⟩
  · rw [not_or, not_le] at hplace
    obtain ⟨hleast, hlt⟩ := hplace
    obtain rfl : m = 2 ^ format.mantissaBitsWithoutImplicit := by
      refine Nat.le_antisymm (hx.le_of_le ?_) (h.full.resolve_left hleast)
      push_cast
      exact hlt.le
    have hlow := hbelow rfl
    push_cast at hlow
    exact .of_below_two_pow (lt_of_le_of_ne h.least (Ne.symm hleast)) hlow hlt sign

/-- A number of the format is rounded to itself. -/
theorem Rounds.of_canonical (h : Canonical format m e) (sign : Sign) :
    Rounds format sign (m * 2 ^ e) (scaled sign m e) := by
  have hx : (m : ℚ) * 2 ^ e / 2 ^ e = m := mul_div_cancel_right₀ _ (by positivity)
  refine .of_isNearest h ?_ (fun _ => ?_) sign
  · rw [hx]
    exact .natCast m
  · rw [hx]
    linarith

/-- A significand at its place is written as the format does. -/
theorem Place.canonical (h : Place format x t) (hn : IsNearest (x / 2 ^ t) n)
    (hlt : n < 2 ^ format.mantissaBits) : Canonical format n t := by
  refine ⟨h.least, hlt, h.full.imp_right fun hfull => hn.le_of_ge ?_⟩
  push_cast
  exact hfull

/-- What is rounded to a format is written as the format does.  It is no greater than a number of
the format that bounds the exact value. -/
theorem Rounds.le {u : UnpackedFloat} (h : Rounds format sign x u) {m' : ℕ} {e' : ℤ}
    (hbound : Canonical format m' e') (hx : x ≤ m' * 2 ^ e') :
    ∃ m e, Canonical format m e ∧ u = scaled sign m e ∧ (e < e' ∨ e = e' ∧ m ≤ m') := by
  obtain ⟨t, n, hplace, hn, rfl⟩ := h
  have hle := hplace.le_two_pow hn
  have hte : t ≤ e' := by
    rcases hplace.full with heq | hfull
    · exact heq.le.trans hbound.least
    · have hfits : (m' : ℚ) < 2 ^ format.mantissaBits := by exact_mod_cast hbound.fits
      have hx : x < 2 ^ format.mantissaBits * 2 ^ e' :=
        hx.trans_lt (mul_lt_mul_of_pos_right hfits (by positivity))
      exact le_of_fits hx ((le_div_iff₀ (by positivity)).mp hfull)
  have hsame : t = e' → n ≤ m' := by
    rintro rfl
    exact hn.le_of_le ((div_le_iff₀ (by positivity)).mpr hx)
  by_cases hlt : n < 2 ^ format.mantissaBits
  · refine ⟨n, t, hplace.canonical hn hlt, if_pos hlt, ?_⟩
    rcases hte.lt_or_eq with hte | hte
    · exact .inl hte
    · exact .inr ⟨hte, hsame hte⟩
  · have hne : t ≠ e' := by
      intro heq
      have hnm := hsame heq
      have hfits := hbound.fits
      omega
    have hleast := hplace.least
    have hbits := Nat.two_pow_pos format.mantissaBitsWithoutImplicit
    have htwo := two_pow_mantissaBits format
    refine ⟨2 ^ format.mantissaBitsWithoutImplicit, t + 1,
      ⟨by omega, by omega, .inr le_rfl⟩, if_neg hlt, ?_⟩
    rcases (show t + 1 ≤ e' by omega).lt_or_eq with hnext | hnext
    · exact .inl hnext
    · exact .inr ⟨hnext, hbound.full.resolve_left (by omega)⟩

/-- Nor is it less than a number of the format that is no greater than the exact value. -/
theorem Rounds.ge {u : UnpackedFloat} (h : Rounds format sign x u) {m' : ℕ} {e' : ℤ}
    (hbound : Canonical format m' e') (hx : m' * 2 ^ e' ≤ x) :
    ∃ m e, Canonical format m e ∧ u = scaled sign m e ∧ (e' < e ∨ e = e' ∧ m' ≤ m) := by
  obtain ⟨t, n, hplace, hn, rfl⟩ := h
  have hte : e' ≤ t := by
    rcases hbound.full with heq | hfull
    · exact heq.le.trans hplace.least
    · have hfull : (2 : ℚ) ^ format.mantissaBitsWithoutImplicit ≤ m' := by exact_mod_cast hfull
      have hlow : (2 : ℚ) ^ format.mantissaBitsWithoutImplicit * 2 ^ e' ≤ x :=
        (mul_le_mul_of_nonneg_right hfull (by positivity)).trans hx
      exact le_of_fits ((div_lt_iff₀ (by positivity)).mp hplace.fits) hlow
  by_cases hlt : n < 2 ^ format.mantissaBits
  · refine ⟨n, t, hplace.canonical hn hlt, if_pos hlt, ?_⟩
    rcases hte.lt_or_eq with hte | rfl
    · exact .inl hte
    · exact .inr ⟨rfl, hn.le_of_ge ((le_div_iff₀ (by positivity)).mpr hx)⟩
  · have hleast := hplace.least
    have hbits := Nat.two_pow_pos format.mantissaBitsWithoutImplicit
    have htwo := two_pow_mantissaBits format
    exact ⟨2 ^ format.mantissaBitsWithoutImplicit, t + 1,
      ⟨by omega, by omega, .inr le_rfl⟩, if_neg hlt, .inl (by omega)⟩

end Patchbay.Single
