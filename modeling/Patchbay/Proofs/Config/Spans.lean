import Patchbay.Config.Seconds
import Patchbay.Proofs.Outcome
import Patchbay.Proofs.Single.Bounded

/-! # Times and spans

A time that was read is a number of seconds that a duration can hold.  Its span is the number of
nanoseconds nearest to it, so a time can be positive and its span none at all: a time lasts a
nanosecond exactly when it is more than half a one. -/

namespace Patchbay

open Single (Exact IsNearest Representable view)

/-! ## Durations -/

namespace Duration

theorem isNearest_roundEven (num : ℕ) {den : ℕ} (hden : 0 < den) :
    IsNearest ((num : ℚ) / den) (roundEven num den) := by
  have hpos : (0 : ℚ) < den := by exact_mod_cast hden
  have hsplit : (num : ℚ) / den = (num / den : ℕ) + ((num % den : ℕ) : ℚ) / den := by
    rw [div_eq_iff hpos.ne', add_mul, div_mul_cancel₀ _ hpos.ne']
    exact_mod_cast (Nat.div_add_mod' num den).symm
  have hrest : num % den < den := Nat.mod_lt _ hden
  unfold roundEven
  dsimp only
  rw [hsplit]
  generalize num / den = q at *
  generalize num % den = r at *
  have hnonneg : (0 : ℚ) ≤ (r : ℚ) / den := by positivity
  have hlt : (r : ℚ) / den < 1 := (div_lt_one hpos).mpr (by exact_mod_cast hrest)
  have hhalf : (r : ℚ) / den = 1 / 2 ↔ 2 * r = den := by
    rw [div_eq_div_iff hpos.ne' two_ne_zero, one_mul, mul_comm]
    exact_mod_cast Iff.rfl
  split
  next hup =>
    have hge : 1 / 2 ≤ (r : ℚ) / den := by
      rw [div_le_div_iff₀ two_pos hpos, one_mul, mul_comm]
      exact_mod_cast (by omega : den ≤ 2 * r)
    refine ⟨by push_cast; linarith, by push_cast; linarith, fun hmiddle => ?_⟩
    push_cast at hmiddle
    have htie := hhalf.mp (by rcases hmiddle with h | h <;> linarith)
    omega
  next hdown =>
    have hle : (r : ℚ) / den ≤ 1 / 2 := by
      rw [div_le_div_iff₀ hpos two_pos, one_mul, mul_comm]
      exact_mod_cast (by omega : 2 * r ≤ den)
    refine ⟨by linarith, by linarith, fun hmiddle => ?_⟩
    have htie := hhalf.mp (by rcases hmiddle with h | h <;> linarith)
    omega

theorem shiftLeft_div_shiftLeft (m : ℕ) (e : ℤ) :
    ((m <<< e.toNat : ℕ) : ℚ) / (1 <<< (-e).toNat : ℕ) = m * 2 ^ e := by
  rw [Nat.shiftLeft_eq, Nat.one_shiftLeft]
  push_cast
  rw [mul_div_assoc, ← zpow_natCast, ← zpow_natCast, ← zpow_sub₀ two_ne_zero]
  congr 2
  omega

theorem fits_iff (m : ℕ) (e : ℤ) :
    m <<< e.toNat < UInt64.size <<< (-e).toNat ↔ (m : ℚ) * 2 ^ e < 2 ^ 64 := by
  rw [← shiftLeft_div_shiftLeft, div_lt_iff₀ (by simp [Nat.one_shiftLeft]), Nat.shiftLeft_eq,
    Nat.shiftLeft_eq, Nat.one_shiftLeft]
  norm_cast

theorem isNearest_nanoseconds (m : ℕ) (e : ℤ) :
    IsNearest (m * 2 ^ e * second) (roundEven ((m <<< e.toNat) * second) (1 <<< (-e).toNat)) := by
  have hden : 0 < 1 <<< (-e).toNat := by simp [Nat.one_shiftLeft]
  have hnearest := isNearest_roundEven ((m <<< e.toNat) * second) hden
  rwa [Nat.cast_mul, mul_div_right_comm, shiftLeft_div_shiftLeft] at hnearest

/-- The number is of `q` seconds, and a duration can hold them. -/
structure Lasts (x : Float32) (q : ℚ) : Prop where
  exact : Exact x q
  nonneg : 0 ≤ q
  fits : q < 2 ^ 64

variable {x : Float32} {q : ℚ} {n : ℕ}

theorem Lasts.zero {sign : Float.Model.UnpackedFloat.Sign} (h : view x = .zero sign) : Lasts x 0 :=
  ⟨.zero h, le_rfl, by norm_num⟩

theorem isNearest_zero : IsNearest (0 * second) 0 := by
  rw [zero_mul]
  exact_mod_cast IsNearest.natCast 0

theorem Lasts.exists_span (h : Lasts x q) :
    ∃ n, ofSeconds? x = some n ∧ IsNearest (q * second) n := by
  unfold ofSeconds?
  cases h.exact with
  | zero hview =>
      rw [hview]
      exact ⟨0, rfl, isNearest_zero⟩
  | @finite sign q hvalue =>
      have hpos := hvalue.pos
      obtain ⟨m, e, hm, hview, rfl⟩ := hvalue
      cases sign with
      | negative => exact absurd h.nonneg (not_le.mpr (Single.signed_negative_lt hpos))
      | positive =>
          rw [hview]
          exact ⟨_, if_pos ((fits_iff m e).mpr h.fits), isNearest_nanoseconds m e⟩

/-- What a duration holds is the nearest whole number of nanoseconds. -/
theorem ofSeconds?_eq_some_iff :
    ofSeconds? x = some n ↔ ∃ q, Lasts x q ∧ IsNearest (q * second) n := by
  constructor
  · intro h
    unfold ofSeconds? at h
    split at h
    next sign hview =>
      cases h
      exact ⟨0, .zero hview, isNearest_zero⟩
    next m e hm hview =>
      obtain ⟨hfits, h⟩ := Option.ite_none_right_eq_some.mp h
      cases h
      exact ⟨m * 2 ^ e, ⟨.positive ⟨m, e, hm, hview, rfl⟩, by positivity, (fits_iff m e).mp hfits⟩,
        isNearest_nanoseconds m e⟩
    next => cases h
  · rintro ⟨q, hq, hnearest⟩
    obtain ⟨k, hk, hnearest'⟩ := hq.exists_span
    rw [hk, hnearest'.unique hnearest]

namespace Lasts

theorem isFinite (h : Lasts x q) : x.isFinite := by
  change (view x).isFinite
  cases h.exact with
  | zero hview =>
      rw [hview]
      rfl
  | finite hvalue =>
      obtain ⟨m, e, hm, hview, -⟩ := hvalue
      rw [hview]
      rfl

theorem not_negative (h : Lasts x q) : ¬ x < 0.0 :=
  not_lt.mpr h.nonneg ∘ (h.exact.lt_iff Single.exact_zero).mp

/-- Below the bound, numbers are 2 ^ 40 apart. -/
theorem le (h : Lasts x q) : q ≤ 2 ^ 64 - 2 ^ 40 := by
  cases h.exact with
  | zero => norm_num
  | @finite sign q hvalue =>
      have hpos := hvalue.pos
      obtain ⟨m, e, hm, hview, rfl⟩ := hvalue
      have hrep := Single.representable_view hview
      have hlt : m < 2 ^ 24 := hrep.fits
      have hcast : (m : ℚ) ≤ 2 ^ 24 - 1 := by
        rw [le_sub_iff_add_le]
        exact_mod_cast hlt
      cases sign with
      | negative =>
          exact absurd h.nonneg (not_le.mpr (Single.signed_negative_lt hpos))
      | positive =>
          have he : e ≤ 40 := by
            by_contra hlarge
            have hfull : 2 ^ 23 ≤ m :=
              hrep.full.resolve_left fun heq => by
                rw [heq] at hlarge
                exact hlarge (by decide)
            have hbig : (2 : ℚ) ^ 64 ≤ m * 2 ^ e :=
              calc (2 : ℚ) ^ 64 = (2 ^ 23 : ℕ) * 2 ^ (41 : ℤ) := by norm_num
                _ ≤ m * 2 ^ e := by
                  gcongr
                  · exact one_le_two
                  · omega
            exact absurd h.fits (not_lt.mpr hbig)
          calc (m : ℚ) * 2 ^ e ≤ (2 ^ 24 - 1) * 2 ^ (40 : ℤ) := by
                gcongr
                exact one_le_two
            _ = 2 ^ 64 - 2 ^ 40 := by norm_num

end Lasts

end Duration

/-! ## Times -/

namespace Config.Seconds

open Duration (Lasts)

variable {s : Seconds} {q : ℚ}

theorem check_eq_ok_iff {value : Float32} {shown : String} :
    check value shown = .ok s ↔ s = ⟨value⟩ ∧ ∃ q, Lasts value q := by
  constructor
  · intro h
    unfold check at h
    split at h
    next => cases h
    next =>
      split at h
      next n hn =>
        obtain ⟨q, hq, -⟩ := Duration.ofSeconds?_eq_some_iff.mp hn
        exact ⟨(Except.ok.inj h).symm, q, hq⟩
      next => cases h
  · rintro ⟨rfl, q, hq⟩
    obtain ⟨n, hn, -⟩ := hq.exists_span
    unfold check
    rw [if_neg (by simp [hq.isFinite, hq.not_negative]), hn]

/-- A duration can hold the time. -/
def Fits (s : Seconds) : Prop := ∃ q, Lasts s.value q

theorem fits_of_check {value : Float32} {shown : String} (h : check value shown = .ok s) :
    s.Fits := by
  obtain ⟨rfl, hlasts⟩ := check_eq_ok_iff.mp h
  exact hlasts

theorem fits_of_read {text : String} (h : read text = .ok s) : s.Fits := by
  unfold read at h
  dsimp only at h
  split at h
  next => cases h
  next => exact fits_of_check h

theorem fits_of_decode {found : Shape} (h : decode found = .ok s) : s.Fits := by
  cases found with
  | string text => exact fits_of_read (Outcome.mapError_eq_ok_iff.mp h)
  | float x => exact fits_of_check (Outcome.mapError_eq_ok_iff.mp h)
  | integer n => exact fits_of_check (Outcome.mapError_eq_ok_iff.mp h)
  | null | boolean | sequence | map | unit => cases h

theorem isNearest_span (h : Lasts s.value q) : IsNearest (q * Duration.second) s.span := by
  obtain ⟨n, hn, hnearest⟩ := h.exists_span
  unfold span
  rwa [Single.larger_zero h.exact h.nonneg, hn, Option.getD_some]

/-- The span of a time is never cut off at the longest one. -/
theorem span_lt_longest (h : Lasts s.value q) : s.span < Duration.longest := by
  have hle : s.span ≤ (2 ^ 64 - 2 ^ 40) * 10 ^ 9 := by
    refine (isNearest_span h).le_of_le ?_
    have := h.le
    norm_num [Duration.second]
    linarith
  exact hle.trans_lt (by decide)

theorem one_le_span_iff (h : Lasts s.value q) : 1 ≤ s.span ↔ 1 / 2 < q * Duration.second :=
  (isNearest_span h).pos_iff

end Config.Seconds

end Patchbay
