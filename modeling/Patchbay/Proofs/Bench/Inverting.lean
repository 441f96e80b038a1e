import Patchbay.Proofs.Bench.Driving
import Patchbay.Proofs.Single.Opposite

/-! # Inverted pins

An inverted pin drives its line the other way round.  A level is turned over on its way to the line
only; a share or a pulse is turned over before the pin takes its value, so the pin then has another
value than a plain one. -/

namespace Patchbay

open Single (Exact exact_zero precise_of_lt)

variable {x v : Float32} {q : ℚ}

/-! ## The other side of the middle -/

namespace Single

theorem exact_half : Exact 0.5 (1 / 2) :=
  .positive ⟨2 ^ 23, -24, by decide, by rfl, by norm_num⟩

theorem neg_beq_iff (hx : ¬ x.isNaN) : -x == x ↔ x == 0.0 := by
  rcases infinite_or_exact hx with rfl | rfl | ⟨q, hq⟩
  · decide
  · decide
  · rw [hq.neg.beq_iff hq, hq.beq_iff exact_zero]
    exact neg_eq_self

/-- The rest of a share is a share. -/
theorem Exact.exists_one_sub (hx : Exact x q) (hlow : 0 ≤ q) (hhigh : q ≤ 1) :
    ∃ r, Exact (1.0 - x) r ∧ 0 ≤ r ∧ r ≤ 1 := by
  have habs : |1 - q| ≤ 1 := abs_le.mpr ⟨by linarith, by linarith⟩
  obtain ⟨r, hr, hle, hnonneg⟩ := (Exact.one.sub hx).within precise_one habs
  exact ⟨r, hr, hnonneg (by linarith), (le_abs_self r).trans hle⟩

/-- Only one half is as far from zero as from one, also when the difference is rounded. -/
theorem Exact.one_sub_beq_iff (hx : Exact x q) (hlow : 0 ≤ q) (hhigh : q ≤ 1) :
    1.0 - x == x ↔ q = 1 / 2 := by
  have hhalf : Precise (1 / 2) := by
    have hvalue : ((1 : ℕ) : ℚ) * 2 ^ (-1 : ℤ) = 1 / 2 := by norm_num
    exact hvalue ▸ precise_of_lt (by decide) (by decide) (by decide) (by decide)
  have hround := Exact.one.sub hx
  obtain ⟨r, hr, hr0, -⟩ := hx.exists_one_sub hlow hhigh
  rw [hr.beq_iff hx]
  constructor
  · rintro rfl
    rcases le_total r (1 / 2) with hle | hge
    · have hbound := hround.ge hr hhalf (by rw [abs_of_nonneg (by linarith)]; linarith)
      rw [abs_of_nonneg hlow] at hbound
      exact le_antisymm hle hbound
    · obtain ⟨s, hs, hbound, -⟩ :=
        hround.within hhalf (by rw [abs_of_nonneg (by linarith)]; linarith)
      rw [hs.unique hr, abs_of_nonneg hlow] at hbound
      exact le_antisymm hbound hge
  · rintro rfl
    have hrest : Exact (1.0 - x) (1 - 1 / 2) := hround.exact (by norm_num; exact hhalf)
    rw [hr.unique hrest]
    norm_num

theorem one_sub_clamp_beq_iff (hx : ¬ x.isNaN) :
    1.0 - clamp 0.0 1.0 x == clamp 0.0 1.0 x ↔ x == 0.5 := by
  rcases infinite_or_exact hx with rfl | rfl | ⟨q, hq⟩
  · decide
  · decide
  · rw [hq.beq_iff exact_half, clamp_of_exact exact_zero .one zero_le_one hq]
    by_cases hlow : q < 0
    · rw [if_pos hlow]
      exact iff_of_false (by decide) (by linarith)
    · by_cases hhigh : 1 < q
      · rw [if_neg hlow, if_pos hhigh]
        exact iff_of_false (by decide) (by linarith)
      · rw [if_neg hlow, if_neg hhigh]
        exact hq.one_sub_beq_iff (not_lt.mp hlow) (not_lt.mp hhigh)

/-- What is in [0, 1] is not cut off there. -/
theorem Exact.clamp_unit (hx : Exact x q) (hlow : 0 ≤ q) (hhigh : q ≤ 1) :
    clamp 0.0 1.0 x = x := by
  rw [clamp_of_exact exact_zero .one zero_le_one hx, if_neg (not_lt.mpr hlow),
    if_neg (not_lt.mpr hhigh)]

theorem clamp_one_sub_clamp (hx : ¬ x.isNaN) :
    clamp 0.0 1.0 (1.0 - clamp 0.0 1.0 x) = 1.0 - clamp 0.0 1.0 x := by
  obtain ⟨q, hq, hlow, hhigh⟩ := exact_clamp exact_zero .one zero_le_one hx
  obtain ⟨r, hr, hr0, hr1⟩ := hq.exists_one_sub hlow hhigh
  exact hr.clamp_unit hr0 hr1

end Single

/-! ## Plain and inverted pins -/

namespace OutputMode

/-- What a pin takes of a value: levels and shares are cut off at zero and one. -/
def accepted (mode : OutputMode) (v : Float32) : Float32 :=
  match mode with
  | level | pwm => Single.clamp 0.0 1.0 v
  | servo => v

/-- What an inverted pin has for its value afterwards. -/
def mirrored (mode : OutputMode) (v : Float32) : Float32 :=
  match mode with
  | level => Single.clamp 0.0 1.0 v
  | pwm => 1.0 - Single.clamp 0.0 1.0 v
  | servo => -v

/-- The values that an inverted pin shows as they are. -/
def Kept (mode : OutputMode) (v : Float32) : Prop :=
  match mode with
  | level => True
  | pwm => v == 0.5
  | servo => v == 0.0

theorem mirrored_beq_accepted_iff (mode : OutputMode) (hv : ¬ v.isNaN) :
    mode.mirrored v == mode.accepted v ↔ mode.Kept v := by
  cases mode with
  | level =>
      obtain ⟨q, hq, -, -⟩ := Single.exact_clamp exact_zero .one zero_le_one hv
      exact iff_of_true ((hq.beq_iff hq).mpr rfl) trivial
  | pwm => exact Single.one_sub_clamp_beq_iff hv
  | servo => exact Single.neg_beq_iff hv

end OutputMode

namespace OutputPin

variable {p : OutputPin}

/-- A pin that is connected in the same way, but inverted or not. -/
def inverting (p : OutputPin) (invert : Bool) : OutputPin :=
  { p with wiring := { p.wiring with invert } }

/-- The drive of an inverted pin: the other level, or what a plain pin does for the value on the
other side of the middle. -/
def Reverses (p : OutputPin) (v : Float32) (drive : Drive) : Prop :=
  match p.mode with
  | .level => ∃ high, (p.resolve v).2 = .level high ∧ drive = .level !high
  | .pwm | .servo => drive = (p.resolve (p.mode.mirrored v)).2

theorem resolve_plain_fst (p : OutputPin) (v : Float32) :
    ((p.inverting false).resolve v).1 = p.mode.accepted v := by
  obtain ⟨wiring, mode, value⟩ := p
  cases mode <;> rfl

theorem resolve_inverted_fst (p : OutputPin) (v : Float32) :
    ((p.inverting true).resolve v).1 = p.mode.mirrored v := by
  obtain ⟨wiring, mode, value⟩ := p
  cases mode <;> rfl

theorem reverses_inverted (p : OutputPin) (hv : ¬ v.isNaN) :
    (p.inverting false).Reverses v ((p.inverting true).resolve v).2 := by
  obtain ⟨wiring, mode, value⟩ := p
  cases mode with
  | level =>
      refine ⟨_, rfl, ?_⟩
      change Drive.level (decide (0.5 ≤ Single.clamp 0.0 1.0 v) != true) =
        .level !(decide (0.5 ≤ Single.clamp 0.0 1.0 v) != false)
      rw [Bool.bne_true, Bool.bne_false]
  | pwm =>
      change _ = (resolve _ (1.0 - Single.clamp 0.0 1.0 v)).2
      simp only [resolve, inverting, Single.clamp_one_sub_clamp hv, if_true,
        Bool.false_eq_true, if_false]
  | servo => rfl

end OutputPin

namespace Pin

/-- A plain pin and an inverted one are connected in the same way and set to the same value.  The
plain one then shows what it takes of the value, and their drives are each other's reverse.  The
inverted one shows the same exactly if they are set to a level, a share of one half or a speed of
zero. -/
theorem inverted_shows_same_iff (p : OutputPin) (old v : Float32) (b b' : Bench)
    (hv : ¬ v.isNaN) :
    ∃ plain inverted c c',
      (output (p.inverting false)).set v b = .ok plain c ∧
      (output { p.inverting true with value := old }).set v b' = .ok inverted c' ∧
      (plain.get c = p.mode.accepted v ∧ inverted.get c' = p.mode.mirrored v) ∧
      (inverted.get c' == plain.get c ↔ p.mode.Kept v) ∧
      (c.line p.number).last = some ((p.inverting false).resolve v).2 ∧
      ∃ drive, (c'.line p.number).last = some drive ∧ (p.inverting false).Reverses v drive := by
  have hplain := p.resolve_plain_fst v
  have hinverted := p.resolve_inverted_fst v
  refine ⟨_, _, _, _, rfl, rfl, ⟨hplain, hinverted⟩, ?_, OutputPin.last_set .., _,
    OutputPin.last_set .., p.reverses_inverted hv⟩
  change ((p.inverting true).resolve v).1 == ((p.inverting false).resolve v).1 ↔ _
  rw [hplain, hinverted]
  exact p.mode.mirrored_beq_accepted_iff hv

/-- Two pins that are set to a share of one half show the same. -/
theorem inverted_shows_same_iff_one_half :
    let p : OutputPin := { wiring := { number := 5 }, mode := .pwm }
    ¬ (0.5 : Float32).isNaN ∧ ∃ plain inverted c c',
      (output (p.inverting false)).set 0.5 {} = .ok plain c ∧
      (output (p.inverting true)).set 0.5 {} = .ok inverted c' ∧
      inverted.get c' == plain.get c := by
  intro p
  have hv : ¬ (0.5 : Float32).isNaN := by decide
  obtain ⟨plain, inverted, c, c', hplain, hinverted, -, hsame, -⟩ :=
    inverted_shows_same_iff p 0.0 0.5 {} {} hv
  exact ⟨hv, plain, inverted, c, c', hplain, hinverted, hsame.mpr rfl⟩

/-- An inverted pin on line 5 that is set to a quarter shows three quarters. -/
theorem inverted_quarter_shows_rest :
    ∃ p b p' b', Pin.attach (some .pwm) { number := 5, invert := true } {} = .ok p b ∧
      p.set 0.25 b = .ok p' b' ∧ p'.get b' = 0.75 ∧ ¬ p'.get b' == OutputMode.accepted .pwm 0.25 :=
  ⟨_, _, _, _, rfl, rfl, by decide, by decide⟩

end Pin

end Patchbay
