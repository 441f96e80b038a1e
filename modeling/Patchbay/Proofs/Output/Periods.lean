import Patchbay.Output.Basic
import Patchbay.Proofs.Motor.Dancing
import Patchbay.Proofs.Single.Opposite

/-! # Periods of waveforms

Whatever is written to the period of a waveform, it stays a number and no shorter than the shortest
period, and a dance comes down to no less than a sixteenth of its starting period.  So no step of a
waveform divides by zero or by NaN. -/

namespace Patchbay

open Single (Exact Roomy infinite_or_exact)

variable {x y : Float32}

/-! ## Periods that are long enough -/

theorem exact_minPeriod : Exact minPeriod (8589935 * 2 ^ (-33 : ℤ)) :=
  .positive ⟨8589935, -33, by decide, by rfl, by norm_num⟩

theorem not_lt_minPeriod_iff (hx : ¬ x.isNaN) : ¬ x < minPeriod ↔ minPeriod ≤ x := by
  rcases infinite_or_exact hx with rfl | rfl | ⟨q, hq⟩
  · decide
  · decide
  · rw [hq.lt_iff exact_minPeriod, exact_minPeriod.le_iff hq, not_lt]

theorem minPeriod_le_atLeastMinPeriod (v : Float32) : minPeriod ≤ atLeastMinPeriod v := by
  have hleast : minPeriod ≤ minPeriod := by decide
  unfold atLeastMinPeriod Single.larger
  by_cases hv : v.isNaN
  · rw [if_pos hv]
    exact hleast
  · rw [if_neg hv, if_neg exact_minPeriod.not_isNaN]
    by_cases hlt : v < minPeriod
    · rw [if_pos hlt]
      exact hleast
    · rw [if_neg hlt]
      exact (not_lt_minPeriod_iff hv).mp hlt

/-- A period that is long enough is taken as it is, and has room. -/
theorem roomy_of_minPeriod_le (h : minPeriod ≤ x) : Roomy x := by
  have hnumber := Single.not_isNaN_of_le h
  have hsame : atLeastMinPeriod x = x := by
    unfold atLeastMinPeriod Single.larger
    rw [if_neg hnumber, if_neg exact_minPeriod.not_isNaN,
      if_neg ((not_lt_minPeriod_iff hnumber).mpr h)]
  exact hsame ▸ Single.roomy_atLeastMinPeriod x

theorem zero_lt_of_minPeriod_le (h : minPeriod ≤ x) : 0.0 < x := by
  have hroomy := roomy_of_minPeriod_le h
  have hpos := (hroomy.sixteenth_le (Nat.zero_le 4)).1
  rwa [hroomy.div_one] at hpos

theorem Param.minPeriod_le_set {p : Param} (h : minPeriod ≤ p.value) (v : Float32) :
    minPeriod ≤ (p.set (atLeastMinPeriod v)).value := by
  unfold Param.set
  split
  next => exact h
  next => exact minPeriod_le_atLeastMinPeriod v

/-! ## Steps that look at what they divide by -/

/-- A quotient, unless the divisor is zero or NaN. -/
def quotient? (x y : Float32) : Option Float32 :=
  if y.isNaN ∨ y == 0.0 then none else some (x / y)

theorem quotient?_of_pos (h : 0.0 < y) (x : Float32) : quotient? x y = some (x / y) := by
  refine if_neg (not_or.mpr ⟨Single.not_isNaN_of_lt h, fun hzero => ?_⟩)
  exact absurd (((Single.Same.of_beq hzero).lt_right_iff 0.0).mp h) (by decide)

theorem quotient?_two (x : Float32) : quotient? x 2.0 = some (x / 2.0) :=
  quotient?_of_pos (by decide) x

/-! The steps of the waveforms, each of which gives nothing as soon as it would divide by zero or by
NaN.  The waves are computed first, whether or not they turn out to be needed.  Timers, hues and pins
have divisors of their own, which no period reaches. -/

def CyclingLight.step? (o : CyclingLight) (b : Bench) : Option (CyclingLight × Bench) := do
  let hue ← quotient? (o.timer.elapsed b.clock * 360.0) o.period.value
  let (hue, timer) := if hue > 360.0 then (360.0, o.timer.reset b.clock) else (hue, o.timer)
  let (light, b) := o.light.setColor (.ofHue hue 1.0 o.brightness.value) b
  return ({ o with light, timer }, b)

theorem CyclingLight.step?_eq {o : CyclingLight} (h : minPeriod ≤ o.period.value) (b : Bench) :
    o.step? b = some (o.step b) := by
  simp only [step?, quotient?_of_pos (zero_lt_of_minPeriod_le h)]
  rfl

def FlashingLight.step? (o : FlashingLight) (b : Bench) : Option (FlashingLight × Bench) := do
  let phase ← quotient? (2.0 * Single.pi * o.timer.elapsed b.clock) o.period.value
  let level ← quotient? (phase.sin + 1.0) 2.0
  let (light, b) := o.light.setColor ((o.color.value.scale o.brightness.value).scale level) b
  return ({ o with light }, b)

theorem FlashingLight.step?_eq {o : FlashingLight} (h : minPeriod ≤ o.period.value) (b : Bench) :
    o.step? b = some (o.step b) := by
  simp only [step?, quotient?_of_pos (zero_lt_of_minPeriod_le h), quotient?_two]
  rfl

def OscillatingMotor.step? (o : OscillatingMotor) (b : Bench) :
    Option (OscillatingMotor × Bench) := do
  let period := o.period.value
  let elapsed := o.timer.elapsed b.clock
  let speed ← quotient? (2.0 * Single.pi) period
  let (height, timer) :=
    if elapsed > period then (0.0, o.timer.reset b.clock) else ((speed * elapsed).sin, o.timer)
  let (motor, b) := o.motor.set (height * o.max.value) b
  return ({ o with motor, timer }, b)

theorem OscillatingMotor.step?_eq {o : OscillatingMotor} (h : minPeriod ≤ o.period.value)
    (b : Bench) : o.step? b = some (o.step b) := by
  simp only [step?, quotient?_of_pos (zero_lt_of_minPeriod_le h)]
  rfl

namespace DancingMotor

variable {o : DancingMotor}

def hasten? (o : DancingMotor) (now : Nat) : Option (DancingMotor × Float32) := do
  let elapsed := o.timer.elapsed now
  let speed ← quotient? (2.0 * Single.pi) o.period
  if elapsed > o.start * 2.0 then
    let period ← quotient? o.period 2.0
    return ({ o with timer := o.timer.reset now, period }, 0.0)
  else return (o, (speed * elapsed).sin)

def swing? (o : DancingMotor) (b : Bench) : Option (DancingMotor × Bench) := do
  let (o, height) ← o.hasten? b.clock
  let (o, height, b) :=
    if o.period ≤ o.start * (1.0 / 16.0) then
      ({ o with timer := o.timer.stop b.clock, phase := .stopped }, 0.0,
        b.note .info "Dance finished")
    else (o, height, b)
  let (motor, b) := o.motor.set height b
  return ({ o with motor }, b)

def step? (o : DancingMotor) (b : Bench) : Option (DancingMotor × Bench) :=
  let again := o.restart
  let o := { o with restart := false }
  match o.phase, again with
  | .idle, _ | .stopped, true =>
    let (o, b) := o.begin b
    o.swing? b
  | .stopped, false =>
    let (motor, b) := o.motor.set 0.0 b
    some ({ o with motor }, b)
  | .dancing, _ =>
    let (o, b) := o.keepOn b
    o.swing? b

theorem hasten?_eq (h : 0.0 < o.period) (now : Nat) : o.hasten? now = some (o.hasten now) := by
  simp only [hasten?, hasten, quotient?_of_pos h, quotient?_two]
  by_cases hover : o.timer.elapsed now > o.start * 2.0
  · simp only [hover, if_true]
    rfl
  · simp only [hover, if_false]
    rfl

theorem swing?_eq (h : 0.0 < o.period) (b : Bench) : o.swing? b = some (o.swing b) := by
  simp only [swing?, hasten?_eq h]
  rfl

theorem step?_eq (hasked : 0.0 < o.asked.value) (hperiod : 0.0 < o.period) (b : Bench) :
    o.step? b = some (o.step b) := by
  have hbegin (o : DancingMotor) (h : 0.0 < o.asked.value) :
      (o.begin b).1.swing? (o.begin b).2 = some ((o.begin b).1.swing (o.begin b).2) := by
    have hperiod : (o.begin b).1.period = o.asked.value := rfl
    exact swing?_eq (hperiod ▸ h) _
  have hkeepOn (o : DancingMotor) (h : 0.0 < o.asked.value) (h' : 0.0 < o.period) :
      (o.keepOn b).1.swing? (o.keepOn b).2 = some ((o.keepOn b).1.swing (o.keepOn b).2) := by
    refine swing?_eq ?_ _
    unfold keepOn
    split
    next => exact h
    next => exact h'
  obtain ⟨motor, asked, restart, phase, start, period, timer⟩ := o
  simp only [step?, step]
  cases phase with
  | idle => exact hbegin _ hasked
  | dancing => exact hkeepOn _ hasked hperiod
  | stopped =>
      cases restart with
      | true => exact hbegin _ hasked
      | false => rfl

theorem onset_start (o : DancingMotor) (now : Nat) :
    (o.onset now).start = o.asked.value ∨ (o.onset now).start = o.start := by
  unfold onset
  split
  next => exact .inl rfl
  next =>
    split
    next => exact .inl rfl
    next => exact .inr rfl

end DancingMotor

/-! ## Dances -/

namespace Dance

variable {d : Dance}

/-- In every phase, the period is the starting one after at most four halvings. -/
structure Lasting (d : Dance) : Prop where
  sound : d.Sound
  asked : minPeriod ≤ d.motor.asked.value
  start : minPeriod ≤ d.motor.start
  halved : d.halvings ≤ 4 ∧ d.motor.period = d.motor.start / Single.ofInt (2 ^ d.halvings)

theorem lasting_made (motor : Motor) (period : Float32) (b : Bench) :
    (made motor period b).Lasting where
  sound := sound_made motor period b
  asked := minPeriod_le_atLeastMinPeriod period
  start := minPeriod_le_atLeastMinPeriod period
  halved := ⟨Nat.zero_le 4, (Single.roomy_atLeastMinPeriod period).div_one.symm⟩

namespace Lasting

theorem write (h : d.Lasting) (t : Target) (v : Float32) : (d.next (.write t v)).Lasting := by
  have hsound := h.sound.next (.write t v)
  cases t with
  | period => exact ⟨hsound, Param.minPeriod_le_set h.asked v, h.start, h.halved⟩
  | restart =>
      rw [next_write_restart] at hsound ⊢
      by_cases hv : 0.5 ≤ v
      · rw [if_pos hv] at hsound ⊢
        exact ⟨hsound, h.asked, h.start, h.halved⟩
      · rw [if_neg hv]
        exact h
  | _ => exact ⟨hsound, h.asked, h.start, h.halved⟩

theorem step (h : d.Lasting) : (d.next .step).Lasting := by
  have hsound := h.sound.next .step
  have hasked : minPeriod ≤ (d.next .step).motor.asked.value := by
    change minPeriod ≤ (d.motor.step d.bench).1.asked.value
    rw [DancingMotor.asked_step_value]
    exact h.asked
  by_cases hr : d.motor.Rests
  · have hmotor := motor_next_step_of_rests hr
    have hcount : (d.next .step).halvings = d.halvings := by
      simp [next, DancingMotor.Renews, DancingMotor.Halves, hr, hr.1, hr.2]
    refine ⟨hsound, hasked, ?_, ?_⟩
    · rw [hmotor]
      exact h.start
    · rw [hcount, hmotor]
      exact h.halved
  · obtain ⟨hstart, hle, hperiod, -⟩ := h.sound.step hr
    refine ⟨hsound, hasked, ?_, hle, hperiod⟩
    rcases d.motor.onset_start d.bench.clock with heq | heq
    · rw [hstart, heq]
      exact h.asked
    · rw [hstart, heq]
      exact h.start

/-- The bench plays no part. -/
theorem on (h : d.Lasting) (b : Bench) : ({ d with bench := b } : Dance).Lasting :=
  ⟨⟨h.sound.asked, h.sound.start, h.sound.dancing⟩, h.asked, h.start, h.halved⟩

/-- The period is positive and no less than a sixteenth of the starting period. -/
theorem period (h : d.Lasting) : 0.0 < d.motor.period ∧ 0.0 < d.motor.start / 16.0 ∧
    d.motor.start / 16.0 ≤ d.motor.period := by
  have hroomy := roomy_of_minPeriod_le h.start
  have hsixteen : Single.ofInt (2 ^ 4) = 16.0 := by decide
  obtain ⟨hle, hperiod⟩ := h.halved
  obtain ⟨hpos, hleast⟩ := hroomy.sixteenth_le hle
  rw [hperiod]
  rw [hsixteen] at hleast
  have hsixteenth := (hroomy.sixteenth_le le_rfl).1
  rw [hsixteen] at hsixteenth
  exact ⟨hpos, hsixteenth, hleast⟩

end Lasting

end Dance

/-! ## Waveforms -/

namespace Output

/-- The period that connections write to. -/
def period? : Output → Option Param
  | cycling o => some o.period
  | flashing o => some o.period
  | oscillating o => some o.period
  | dancing o => some o.asked
  | solid _ | constant _ => none

/-- A step that gives nothing as soon as it would divide by zero or by NaN. -/
def step? (o : Output) (b : Bench) : Option (Output × Bench) :=
  match o with
  | cycling o => (o.step? b).map fun (o, b) => (cycling o, b)
  | flashing o => (o.step? b).map fun (o, b) => (flashing o, b)
  | oscillating o => (o.step? b).map fun (o, b) => (oscillating o, b)
  | dancing o => (o.step? b).map fun (o, b) => (dancing o, b)
  | solid _ | constant _ => some (o.step b)

/-- What becomes of a waveform that is made with any period, as connections write to it and it is
stepped.  Time goes by and other outputs use the bench in between, so a step may find any bench. -/
inductive Waveform : Output → Prop
  | cycling (light : Light) (brightness period : Float32) (now : Nat) :
    Waveform (.cycling (.make light brightness period now))
  | flashing (light : Light) (color : Color) (brightness period : Float32) (now : Nat) :
    Waveform (.flashing (.make light color brightness period now))
  | oscillating (motor : Motor) (max period : Float32) (now : Nat) :
    Waveform (.oscillating (.make motor max period now))
  | dancing (motor : Motor) (period : Float32) (now : Nat) :
    Waveform (.dancing (.make motor period now))
  | write {o : Output} (h : Waveform o) (t : Target) (v : Float32) : Waveform (o.write t v)
  | step {o : Output} (h : Waveform o) (b : Bench) : Waveform (o.step b).1

/-- The period is long enough, and a dance has not come down too far. -/
def Paced : Output → Prop
  | cycling o => minPeriod ≤ o.period.value
  | flashing o => minPeriod ≤ o.period.value
  | oscillating o => minPeriod ≤ o.period.value
  | dancing o => ∃ d : Dance, d.motor = o ∧ d.Lasting
  | solid _ | constant _ => False

variable {o : Output}

theorem Paced.write (h : o.Paced) (t : Target) (v : Float32) : (o.write t v).Paced := by
  cases o with
  | solid o | constant o => exact h
  | cycling o | flashing o | oscillating o =>
      cases t with
      | period => exact Param.minPeriod_le_set h v
      | _ => exact h
  | dancing o =>
      obtain ⟨d, rfl, hd⟩ := h
      exact ⟨_, rfl, hd.write t v⟩

theorem Paced.step (h : o.Paced) (b : Bench) : (o.step b).1.Paced := by
  cases o with
  | solid o | constant o => exact absurd h id
  | cycling o | flashing o | oscillating o => exact h
  | dancing o =>
      obtain ⟨d, rfl, hd⟩ := h
      exact ⟨_, rfl, (hd.on b).step⟩

theorem Paced.step?_eq (h : o.Paced) (b : Bench) : o.step? b = some (o.step b) := by
  cases o with
  | solid o | constant o => rfl
  | cycling o => exact congrArg (Option.map _) (o.step?_eq h b)
  | flashing o => exact congrArg (Option.map _) (o.step?_eq h b)
  | oscillating o => exact congrArg (Option.map _) (o.step?_eq h b)
  | dancing o =>
      obtain ⟨d, rfl, hd⟩ := h
      exact congrArg (Option.map _)
        (d.motor.step?_eq (zero_lt_of_minPeriod_le hd.asked) hd.period.1 b)

theorem Waveform.paced (h : o.Waveform) : o.Paced := by
  induction h with
  | cycling light brightness period now => exact minPeriod_le_atLeastMinPeriod period
  | flashing light color brightness period now => exact minPeriod_le_atLeastMinPeriod period
  | oscillating motor max period now => exact minPeriod_le_atLeastMinPeriod period
  | dancing motor period now =>
      exact ⟨_, rfl, Dance.lasting_made motor period { clock := now }⟩
  | write h t v ih => exact ih.write t v
  | step h b ih => exact ih.step b

/-- Whatever is written to a waveform, its period is a number and not below the shortest one.  The
period that a dance has come down to is a number too, and at least a sixteenth of its starting
period, which is positive.  So the next step divides neither by zero nor by NaN. -/
theorem waveform_divides_safely (h : o.Waveform) (b : Bench) :
    (∃ p, o.period? = some p ∧ ¬ p.value.isNaN ∧ minPeriod ≤ p.value) ∧
    (∀ d, o = .dancing d →
      ¬ d.period.isNaN ∧ d.start / 16.0 ≤ d.period ∧ 0.0 < d.start / 16.0) ∧
    o.step? b = some (o.step b) := by
  have hpaced := h.paced
  refine ⟨?_, ?_, hpaced.step?_eq b⟩
  · cases o with
    | solid o | constant o => exact absurd hpaced id
    | cycling o | flashing o | oscillating o => exact ⟨_, rfl, Single.not_isNaN_of_le hpaced, hpaced⟩
    | dancing o =>
        obtain ⟨d, rfl, hd⟩ := hpaced
        exact ⟨_, rfl, Single.not_isNaN_of_le hd.asked, hd.asked⟩
  · rintro _ rfl
    obtain ⟨d, rfl, hd⟩ := hpaced
    obtain ⟨hpos, hsixteenth, hle⟩ := hd.period
    exact ⟨Single.not_isNaN_of_lt hpos, hle, hsixteenth⟩

/-- A dance is made with NaN for its period, and is written minus infinity after its first step.  It
still has a period by which its later steps can divide. -/
theorem waveform_divides_safely_nan_period :
    let made : Output := .dancing (.make Dance.servo (0.0 / 0.0) 0)
    let o := (((made.step {}).1.write .period (-1.0 / 0.0)).step { clock := 3000000000 }).1
    o.Waveform ∧ (∃ p, o.period? = some p ∧ ¬ p.value.isNaN ∧ minPeriod ≤ p.value) ∧
      o.step? { clock := 6000000000 } = some (o.step { clock := 6000000000 }) := by
  intro made o
  have ho : o.Waveform := .step (.write (.step (.dancing Dance.servo _ 0) {}) .period _) _
  obtain ⟨hperiod, -, hstep⟩ := waveform_divides_safely ho { clock := 6000000000 }
  exact ⟨ho, hperiod, hstep⟩

end Output

end Patchbay
