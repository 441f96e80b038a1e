import Patchbay.Proofs.Output.Opening
import Patchbay.Proofs.Single.Bounded
import Patchbay.Proofs.Single.Special

/-! # What lines are driven with

Whatever number a motor is set to, and whatever colour a light, its lines are driven with a share
of a period or with a pulse that it can bear, unless the number is NaN. -/

namespace Patchbay

open Single (Exact HasValue Precise exact_zero nan precise_natCast precise_of_lt precise_one)

/-! ## Drives that can be borne -/

/-- A drive that a motor can bear: the turning servo's pulses differ from its centre by at most 300
microseconds, those of the other servo by at most 1000, and a share is in [0, 1]. -/
def MotorName.Bears : MotorName → Drive → Prop
  | fs90r, .pulse micros => 1200 ≤ micros ∧ micros ≤ 1800
  | ms18, .pulse micros => 500 ≤ micros ∧ micros ≤ 2500
  | l298n, .duty share _ => 0.0 ≤ share ∧ share ≤ 1.0
  | _, _ => False

/-- A drive that a channel of a light can bear. -/
def OutputMode.Bears : OutputMode → Drive → Prop
  | level, .level _ => True
  | pwm, .duty share _ => 0.0 ≤ share ∧ share ≤ 1.0
  | _, _ => False

/-- Numbers in [0, 1] stay there when they are raised to a positive power. -/
def StaysInUnit (power : Float32 → Float32 → Float32) : Prop :=
  ∀ x y, 0.0 ≤ x → x ≤ 1.0 → 0.0 < y → 0.0 ≤ power x y ∧ power x y ≤ 1.0

/-! ## One pin -/

namespace OutputPin

variable {p : OutputPin} {v : Float32} {q : ℚ} {k : ℕ}

theorem hasValue_thousand : HasValue 1000.0 .positive 1000 :=
  ⟨16384000, -14, by decide, by rfl, by norm_num⟩

theorem hasValue_center : HasValue 1500.0 .positive 1500 :=
  ⟨12288000, -13, by decide, by rfl, by norm_num⟩

/-- How far a pulse is from the centre. -/
theorem exists_resolve_servo (hp : p.mode = .servo) (hk : k ≤ 1500) (hv : Exact v q)
    (hq : |q * 1000| ≤ k + 1 / 2) :
    ∃ micros, (p.resolve v).2 = .pulse micros ∧ 1500 ≤ micros + k ∧ micros ≤ 1500 + k := by
  obtain ⟨q', hv', hq'⟩ : ∃ q', Exact (if p.wiring.invert then -v else v) q' ∧
      |q' * 1000| ≤ k + 1 / 2 := by
    split
    · refine ⟨-q, hv.neg, ?_⟩
      rwa [neg_mul, abs_neg]
    · exact ⟨q, hv, hq⟩
  have hprecise : Precise (k + 1 / 2) := by
    have hhalves : Precise ((2 * k + 1 : ℕ) * 2 ^ (-1 : ℤ)) :=
      precise_of_lt (by omega) (by omega) (by decide) (by decide)
    have hvalue : ((2 * k + 1 : ℕ) : ℚ) * 2 ^ (-1 : ℤ) = k + 1 / 2 := by
      push_cast
      ring
    rwa [hvalue] at hhalves
  obtain ⟨r, hr, hrk, -⟩ := (hv'.mul (.positive hasValue_thousand)).within hprecise hq'
  obtain ⟨i, hi, hir, -⟩ := hr.trunc
  have hlt : |i| < k + 1 := by
    have hcast : |(i : ℚ)| < k + 1 := by linarith
    exact_mod_cast hcast
  obtain ⟨hlow, hhigh⟩ := abs_le.mp (Int.lt_add_one_iff.mp hlt)
  obtain ⟨n, hn⟩ : ∃ n : ℕ, i + 1500 = n := ⟨(i + 1500).toNat, by omega⟩
  have hsum : Exact (Single.trunc ((if p.wiring.invert then -v else v) * 1000.0) + 1500.0) n := by
    have hround := hi.add (.positive hasValue_center)
    have hcast : (i : ℚ) + 1500 = ((i + 1500 : ℤ) : ℚ) := by push_cast; ring
    rw [hcast] at hround
    have hexact := hround.intCast (by omega)
    rwa [hn, Int.cast_natCast] at hexact
  refine ⟨n, ?_, by omega, by omega⟩
  have hlarger := Single.larger_zero hsum (Nat.cast_nonneg n)
  have htoNat := Single.toNat_toUInt64 hsum (by omega)
  unfold resolve
  rw [hp]
  dsimp only
  rw [hlarger, htoNat]

theorem resolve_servo_nan (hp : p.mode = .servo) : (p.resolve nan).2 = .pulse 0 := by
  unfold resolve
  rw [hp]
  cases p.wiring.invert <;> rfl

/-- A share stays in [0, 1] when it is cut off to whole steps. -/
theorem unit_trunc_div {n : ℕ} (hn : 0 < n) (hlt : n < 2 ^ 24) (hv : Exact v q) (hq : 0 ≤ q)
    (hq' : q ≤ 1) : 0.0 ≤ Single.trunc (v * Single.ofInt n) / Single.ofInt n ∧
      Single.trunc (v * Single.ofInt n) / Single.ofInt n ≤ 1.0 := by
  have hsteps : Exact (Single.ofInt n) n := by
    have hvalue := Single.hasValue_ofInt (i := n) (by omega) (by omega)
    rw [if_neg (by omega), Int.natAbs_natCast] at hvalue
    exact .positive hvalue
  have hcast : (0 : ℚ) < n := by exact_mod_cast hn
  have hscaled : |q * n| ≤ n := by
    rw [abs_of_nonneg (by positivity)]
    exact mul_le_of_le_one_left hcast.le hq'
  obtain ⟨s, hs, hsn, hs0⟩ := (hv.mul hsteps).within (precise_natCast hn hlt) hscaled
  obtain ⟨i, hi, his, hi0⟩ := hs.trunc
  have hin : (i : ℚ) ≤ n := (le_abs_self _).trans (his.trans hsn)
  have hi0 : (0 : ℚ) ≤ i := by exact_mod_cast hi0 (hs0 (by positivity))
  have hshare : |(i : ℚ) / n| ≤ 1 := by
    rw [abs_of_nonneg (by positivity)]
    exact div_le_one_of_le₀ hin hcast.le
  obtain ⟨t, ht, ht1, ht0⟩ := (hi.div hsteps hcast.ne').within precise_one hshare
  have hle : t ≤ 1 := (le_abs_self t).trans ht1
  exact ⟨(exact_zero.le_iff ht).mpr (ht0 (by positivity)), (ht.le_iff .one).mpr hle⟩

theorem range_pos {invert : Bool} (h : p.wiring = { number := p.number, invert }) :
    0 < p.wiring.pwm.range := by
  rw [h]
  exact show (0 : UInt16) < 255 by decide

/-- The share of a period that a number asks for. -/
theorem exists_resolve_pwm (hp : p.mode = .pwm) (hrange : 0 < p.wiring.pwm.range)
    (hv : ¬ v.isNaN) : ∃ share, (p.resolve v).2 = .duty share p.wiring.pwm.frequency ∧
      0.0 ≤ share ∧ share ≤ 1.0 := by
  obtain ⟨q, hq, hq0, hq1⟩ := Single.exact_clamp exact_zero .one zero_le_one hv
  obtain ⟨r, hr, hr0, hr1⟩ : ∃ r,
      Exact (if p.wiring.invert then 1.0 - Single.clamp 0.0 1.0 v else Single.clamp 0.0 1.0 v) r ∧
        0 ≤ r ∧ r ≤ 1 := by
    split
    · have habs : |1 - q| ≤ 1 := abs_le.mpr ⟨by linarith, by linarith⟩
      obtain ⟨r, hr, hr1, hr0⟩ := (Exact.one.sub hq).within precise_one habs
      exact ⟨r, hr, hr0 (by linarith), (le_abs_self r).trans hr1⟩
    · exact ⟨q, hq, hq0, hq1⟩
  have hpos : 0 < p.wiring.pwm.range.toNat := UInt16.lt_iff_toNat_lt.mp hrange
  have hlt : p.wiring.pwm.range.toNat < 2 ^ 16 := p.wiring.pwm.range.toNat_lt
  refine ⟨_, ?_, unit_trunc_div hpos (by omega) hr hr0 hr1⟩
  unfold resolve
  rw [hp]

theorem resolve_pwm_nan (hp : p.mode = .pwm) :
    (p.resolve nan).2 = .duty nan p.wiring.pwm.frequency := by
  have hvalue : (if p.wiring.invert then 1.0 - nan else nan) = nan := by
    split
    · exact Single.sub_nan _
    · rfl
  unfold resolve
  rw [hp]
  dsimp only
  rw [Single.clamp_nan, hvalue, Single.nan_mul, Single.trunc_nan, Single.nan_div]

end OutputPin

/-! ## Motors -/

namespace MotorName

variable {name : MotorName} {power : Float32 → Float32 → Float32} {speed v : Float32} {q : ℚ}
  {p : OutputPin}

/-- How far the values of a motor's pins are from zero at most. -/
def reach : MotorName → ℚ
  | fs90r => 10066330 * 2 ^ (-25 : ℤ)
  | ms18 | l298n => 1

theorem hasValue_scale : HasValue 0.3 .positive (reach fs90r) :=
  ⟨10066330, -25, by decide, by rfl, by norm_num [reach]⟩

theorem bears_resolve (hmode : p.mode = name.outputMode)
    (hwiring : p.wiring = { number := p.number }) (hv : Exact v q) (hq : |q| ≤ name.reach) :
    name.Bears (p.resolve v).2 := by
  have hthousand : |q * 1000| = |q| * 1000 := by
    rw [abs_mul, abs_of_pos (by norm_num : (0 : ℚ) < 1000)]
  cases name with
  | fs90r =>
      have hspan : |q * 1000| ≤ (300 : ℕ) + 1 / 2 := by
        norm_num [reach] at hq
        rw [hthousand]
        norm_num
        linarith
      obtain ⟨micros, hmicros, hleast, hmost⟩ :=
        OutputPin.exists_resolve_servo hmode (by decide) hv hspan
      rw [hmicros]
      exact ⟨by omega, by omega⟩
  | ms18 =>
      have hspan : |q * 1000| ≤ (1000 : ℕ) + 1 / 2 := by
        rw [hthousand]
        norm_num
        linarith [show |q| ≤ 1 from hq]
      obtain ⟨micros, hmicros, hleast, hmost⟩ :=
        OutputPin.exists_resolve_servo hmode (by decide) hv hspan
      rw [hmicros]
      exact ⟨by omega, by omega⟩
  | l298n =>
      have hrange := OutputPin.range_pos hwiring
      obtain ⟨share, hshare, hunit⟩ := OutputPin.exists_resolve_pwm hmode hrange hv.not_isNaN
      rw [hshare]
      exact hunit

/-- The curve of the turning servo stays within its scale. -/
theorem exists_exact_curve (hpower : StaysInUnit power) (hv : Exact v q) (hq : |q| ≤ 1) :
    ∃ r, Exact (power v.abs 2.173913 * Single.signum v * 0.3) r ∧ |r| ≤ reach fs90r := by
  have hlow : 0.0 ≤ v.abs := (exact_zero.le_iff hv.abs).mpr (abs_nonneg q)
  have hhigh : v.abs ≤ 1.0 := (hv.abs.le_iff .one).mpr hq
  obtain ⟨hpow, hpow'⟩ := hpower v.abs 2.173913 hlow hhigh (by decide)
  obtain ⟨w, hw, hw0, hw1⟩ := Single.exists_exact_of_unit hpow hpow'
  obtain ⟨s, hs, hs1⟩ := hv.signum
  have hcurve : |w * s| ≤ 1 := by
    rw [abs_mul, hs1, mul_one, abs_of_nonneg hw0]
    exact hw1
  obtain ⟨c, hc, hc1, -⟩ := (hw.mul hs).within precise_one hcurve
  have hscale : Precise (reach fs90r) :=
    precise_of_lt (n := 10066330) (by decide) (by decide) (by decide) (by decide)
  have hpos : 0 < reach fs90r := hasValue_scale.pos
  have hscaled : |c * reach fs90r| ≤ reach fs90r := by
    rw [abs_mul, abs_of_pos hpos]
    exact mul_le_of_le_one_left hpos.le hc1
  obtain ⟨r, hr, hr1, -⟩ := (hc.mul (.positive hasValue_scale)).within hscale hscaled
  exact ⟨r, hr, hr1⟩

theorem exists_exact_of_mem_pinValues (hpower : StaysInUnit power) (hs : Exact speed q)
    (hq : |q| ≤ 1) (hv : v ∈ name.pinValues power speed) :
    ∃ r, Exact v r ∧ |r| ≤ name.reach := by
  cases name with
  | fs90r =>
      obtain rfl := List.mem_singleton.mp hv
      exact exists_exact_curve hpower hs hq
  | ms18 =>
      obtain rfl := List.mem_singleton.mp hv
      exact ⟨q, hs, hq⟩
  | l298n =>
      rcases List.mem_pair.mp hv with rfl | rfl
      · exact ⟨q, hs, hq⟩
      · exact ⟨-q, hs.neg, (abs_neg q).trans_le hq⟩

theorem eq_nan_of_mem_pinValues (hv : v ∈ name.pinValues power nan) : v = nan := by
  cases name with
  | fs90r =>
      obtain rfl := List.mem_singleton.mp hv
      have hsignum : Single.signum nan = nan := by rfl
      rw [hsignum, Single.mul_nan, Single.nan_mul]
  | ms18 => exact List.mem_singleton.mp hv
  | l298n =>
      rcases List.mem_pair.mp hv with rfl | rfl
      · rfl
      · rfl

theorem not_bears_resolve_nan (hmode : p.mode = name.outputMode) :
    ¬ name.Bears (p.resolve nan).2 := by
  cases name with
  | fs90r | ms18 =>
      rw [OutputPin.resolve_servo_nan hmode]
      exact fun h => absurd h.1 (by decide)
  | l298n =>
      rw [OutputPin.resolve_pwm_nan hmode]
      exact fun h => Single.not_le_nan _ h.1

/-- A pin of a motor at a speed. -/
theorem bears_resolve_iff (hpower : StaysInUnit power) (hmode : p.mode = name.outputMode)
    (hwiring : p.wiring = { number := p.number })
    (hv : v ∈ name.pinValues power (Single.clamp (-1.0) 1.0 speed)) :
    name.Bears (p.resolve v).2 ↔ ¬ speed.isNaN := by
  by_cases hnan : speed.isNaN
  · refine iff_of_false ?_ (not_not.mpr hnan)
    rw [Single.eq_nan_of_isNaN hnan, Single.clamp_nan] at hv
    rw [eq_nan_of_mem_pinValues hv]
    exact not_bears_resolve_nan hmode
  · refine iff_of_true ?_ hnan
    obtain ⟨q, hq, hlow, hhigh⟩ := Single.exact_clamp Exact.one.neg .one (by norm_num) hnan
    obtain ⟨r, hr, hreach⟩ :=
      exists_exact_of_mem_pinValues hpower hq (abs_le.mpr ⟨hlow, hhigh⟩) hv
    exact bears_resolve hmode hwiring hr hreach

end MotorName

/-! ## Lights -/

/-- A pin of a light at a channel's value. -/
theorem OutputMode.bears_resolve_iff {mode : OutputMode} {invert : Bool} {p : OutputPin}
    {v : Float32} (hmode : mode ≠ .servo) (hp : p.mode = mode)
    (hwiring : p.wiring = { number := p.number, invert }) :
    mode.Bears (p.resolve v).2 ↔ (mode = .pwm → ¬ v.isNaN) := by
  cases mode with
  | level =>
      refine iff_of_true ?_ nofun
      unfold OutputPin.resolve
      rw [hp]
      trivial
  | pwm =>
      by_cases hnan : v.isNaN
      · refine iff_of_false ?_ fun h => h rfl hnan
        rw [Single.eq_nan_of_isNaN hnan, OutputPin.resolve_pwm_nan hp]
        exact fun h => Single.not_le_nan _ h.1
      · refine iff_of_true ?_ fun _ => hnan
        have hrange := OutputPin.range_pos hwiring
        obtain ⟨share, hshare, hunit⟩ := OutputPin.exists_resolve_pwm hp hrange hnan
        rw [hshare]
        exact hunit
  | servo => exact absurd rfl hmode

theorem Light.outputMode_ne (drive : Config.LightDrive) : outputMode drive ≠ .servo := by
  cases drive <;> decide

/-! ## All lines -/

/-- Whatever is opened, its lines can bear how they are driven then.  Later a motor can bear what it
is driven with exactly when the speed that it is set to is a number, and a channel of a light
exactly when its value is a number or only a level is shown.  No other line is driven. -/
theorem drives_bearable_iff (b : Bench) (hpower : StaysInUnit b.power) :
    (∀ name numbers m b', Motor.attach name numbers b = .ok m b' →
      ∀ p ∈ m.pins, ∃ d, (b'.line p.number).last = some d ∧ name.Bears d) ∧
    (∀ name drive numbers l b', Light.attach name drive numbers b = .ok l b' →
      ∀ p ∈ l.pins, ∃ d, (b'.line p.number).last = some d ∧ (Light.outputMode drive).Bears d) ∧
    (∀ m : Motor, m.Opened → ∀ speed,
      (∀ p ∈ m.pins, ∃ d,
        (m.set speed b).2.line p.number = (b.write p.number d).line p.number ∧
        (m.name.Bears d ↔ ¬ speed.isNaN)) ∧
      ∀ q ∉ m.numbers, (m.set speed b).2.line q = b.line q) ∧
    ∀ l : Light, l.Opened → ∀ color,
      (∀ p ∈ l.pins, ∃ v d, (p, v) ∈ l.pins.zip color.channels ∧
        (l.setColor color b).2.line p.number = (b.write p.number d).line p.number ∧
        (p.mode.Bears d ↔ (p.mode = .pwm → ¬ v.isNaN))) ∧
      ∀ q ∉ l.numbers, (l.setColor color b).2.line q = b.line q := by
  refine ⟨?attached_motor, ?attached_light, ?set_motor, ?set_light⟩
  case attached_motor =>
    intro name numbers m b' h p hp
    obtain ⟨-, -, hwired, hlast⟩ := Motor.attach_eq_ok h
    have hreach : |(0 : ℚ)| ≤ name.reach := by
      rw [abs_zero]
      cases name <;> norm_num [MotorName.reach]
    exact ⟨_, hlast p hp, MotorName.bears_resolve (hwired.mode_eq hp) (hwired.wiring_eq hp)
      exact_zero hreach⟩
  case attached_light =>
    intro name drive numbers l b' h p hp
    obtain ⟨-, -, hwired, hlast⟩ := Light.attach_eq_ok h
    refine ⟨_, hlast p hp, ?_⟩
    exact (OutputMode.bears_resolve_iff (Light.outputMode_ne drive) (hwired.mode_eq hp)
      (hwired.wiring_eq hp)).mpr fun _ => exact_zero.not_isNaN
  case set_motor =>
    intro m hm speed
    obtain ⟨hwired, hlength⟩ := hm.wired
    refine ⟨fun p hp => ?_, fun q hq => OutputPin.line_setAll_of_not_mem hq⟩
    have hcount : m.pins.length ≤
        (m.name.pinValues b.power (Single.clamp (-1.0) 1.0 speed)).length := by
      rw [hlength, MotorName.length_pinValues]
    obtain ⟨v, hmem⟩ := OutputPin.exists_mem_zip hcount hp
    refine ⟨(p.resolve v).2, OutputPin.line_setAll_eq_write hwired.nodup hmem, ?_⟩
    exact MotorName.bears_resolve_iff hpower (hwired.mode_eq hp) (hwired.wiring_eq hp)
      (List.of_mem_zip hmem).2
  case set_light =>
    intro l hl color
    obtain ⟨⟨drive, hwired⟩, hlength⟩ := hl.wired
    refine ⟨fun p hp => ?_, fun q hq => OutputPin.line_setAll_of_not_mem hq⟩
    obtain ⟨v, hmem⟩ := OutputPin.exists_mem_zip (hlength.trans_le (l.name.pinCount_le color)) hp
    refine ⟨v, (p.resolve v).2, hmem, OutputPin.line_setAll_eq_write hwired.nodup hmem, ?_⟩
    rw [hwired.mode_eq hp]
    exact OutputMode.bears_resolve_iff (Light.outputMode_ne drive) (hwired.mode_eq hp)
      (hwired.wiring_eq hp)

/-- The turning servo on pin 5 can bear an infinite speed and a motionless start, but not NaN. -/
theorem drives_bearable_iff_infinite_speed :
    let bench : Bench := { power := fun x _ => x }
    StaysInUnit bench.power ∧ ∃ m b', Motor.attach .fs90r [5] bench = .ok m b' ∧
      (∃ d, (b'.line 5).last = some d ∧ MotorName.Bears .fs90r d) ∧
      (∃ d, ((m.set (1.0 / 0.0) bench).2.line 5).last = some d ∧ MotorName.Bears .fs90r d) ∧
      ∃ d, ((m.set (0.0 / 0.0) bench).2.line 5).last = some d ∧ ¬ MotorName.Bears .fs90r d := by
  intro bench
  have hpower : StaysInUnit bench.power := fun x y hlow hhigh _ => ⟨hlow, hhigh⟩
  obtain ⟨hopened, -, hset, -⟩ := drives_bearable_iff bench hpower
  obtain ⟨m, b', hm, p, hp, hnumber⟩ : ∃ m b', Motor.attach .fs90r [5] bench = .ok m b' ∧
      ∃ p ∈ m.pins, p.number = 5 := ⟨_, _, rfl, _, List.mem_singleton_self _, rfl⟩
  have hname : m.name = .fs90r := (Motor.attach_eq_ok hm).1
  refine ⟨hpower, m, b', hm, ?_, ?_, ?_⟩
  · rw [← hnumber]
    exact hopened _ _ _ _ hm p hp
  · obtain ⟨d, hd, hbears⟩ := (hset m (.attach hm) (1.0 / 0.0)).1 p hp
    refine ⟨d, ?_, hname ▸ hbears.mpr (by decide)⟩
    rw [← hnumber, hd, Bench.line_write, if_pos rfl]
  · obtain ⟨d, hd, hbears⟩ := (hset m (.attach hm) (0.0 / 0.0)).1 p hp
    refine ⟨d, ?_, hname ▸ fun h => hbears.mp h (by decide)⟩
    rw [← hnumber, hd, Bench.line_write, if_pos rfl]

/-- The servo on pin 5 is sent no pulse at all when it is set to NaN. -/
theorem nan_stops_pulses :
    ∃ m b', Motor.attach .ms18 [5] {} = .ok m b' ∧
      ((m.set (0.0 / 0.0) b').2.line 5).last = some (.pulse 0) ∧
      ¬ MotorName.Bears .ms18 (.pulse 0) :=
  ⟨_, _, rfl, rfl, by simp [MotorName.Bears]⟩

end Patchbay
