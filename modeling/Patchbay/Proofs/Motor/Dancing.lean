import Patchbay.Motor.Modes
import Patchbay.Proofs.Single.Halving

/-! # How a dance ends

Each halving brings the period down from the starting period, so the fourth one ends the dance.  An
infinite period is a sixteenth of itself: with it a dance ends in the step that takes it over. -/

namespace Patchbay

open Single (Roomy infinity)

namespace DancingMotor

/-! ## What a step does -/

/-- The next step leaves the motor at rest. -/
def Rests (o : DancingMotor) : Prop := o.phase = .stopped ∧ o.restart = false

instance (o : DancingMotor) : Decidable o.Rests :=
  inferInstanceAs (Decidable (o.phase = .stopped ∧ o.restart = false))

/-- The next step begins a dance, or takes over a period that was written since the last one. -/
def Renews (o : DancingMotor) : Prop :=
  match o.phase with
  | .idle => True
  | .dancing => o.asked.dirty = true
  | .stopped => o.restart = true

instance (o : DancingMotor) : Decidable o.Renews := by
  unfold Renews
  split <;> infer_instance

/-- The motor at the beginning of a dance. -/
def begun (o : DancingMotor) (now : Nat) : DancingMotor :=
  { o with
    asked := o.asked.clean, restart := false, phase := .dancing, start := o.asked.value
    period := o.asked.value, timer := .started now }

/-- The motor as it goes into the swing of the next step, unless it rests. -/
def onset (o : DancingMotor) (now : Nat) : DancingMotor :=
  if o.phase ≠ .dancing then o.begun now
  else if o.asked.dirty then { o.adopt with restart := false }
  else { o with restart := false }

@[simp] theorem asked_onset_value (o : DancingMotor) (now : Nat) :
    (o.onset now).asked.value = o.asked.value := by
  unfold onset
  split
  next => rfl
  next => split <;> rfl

theorem step_of_rests {o : DancingMotor} (h : o.Rests) (b : Bench) :
    o.step b = ({ o with motor := (o.motor.set 0.0 b).1 }, (o.motor.set 0.0 b).2) := by
  obtain ⟨motor, asked, restart, phase, start, period, timer⟩ := o
  obtain ⟨rfl, rfl⟩ : phase = .stopped ∧ restart = false := h
  rfl

/-- A step that does not rest swings; what it notes on the way is left open. -/
theorem step_of_not_rests {o : DancingMotor} (h : ¬ o.Rests) (b : Bench) :
    ∃ journal, o.step b = (o.onset b.clock).swing { b with journal } := by
  obtain ⟨motor, asked, restart, phase, start, period, timer⟩ := o
  cases phase with
  | idle => exact ⟨_, rfl⟩
  | dancing =>
      cases hdirty : asked.dirty with
      | true => exact ⟨_, by simp only [step, keepOn, onset, hdirty]; rfl⟩
      | false => exact ⟨b.journal, by simp only [step, keepOn, onset, hdirty]; rfl⟩
  | stopped =>
      cases restart with
      | true => exact ⟨_, rfl⟩
      | false => exact absurd ⟨rfl, rfl⟩ h

/-- More than two starting periods are over when the motor goes into the swing of the next step. -/
def Halves (o : DancingMotor) (now : Nat) : Prop :=
  ¬ o.Rests ∧ (o.onset now).timer.elapsed now > (o.onset now).start * 2.0

instance (o : DancingMotor) (now : Nat) : Decidable (o.Halves now) :=
  inferInstanceAs (Decidable (_ ∧ _))

/-! ## The swing -/

section Swing

variable (o : DancingMotor) {b : Bench} (now : Nat)

/-- The number of halvings in a swing. -/
def halvingsIn : Nat := if o.timer.elapsed now > o.start * 2.0 then 1 else 0

theorem halvingsIn_le_one : o.halvingsIn now ≤ 1 := by
  unfold halvingsIn
  split <;> decide

theorem hasten_fst : (o.hasten now).1 =
    { o with
      timer := if o.timer.elapsed now > o.start * 2.0 then o.timer.reset now else o.timer
      period := if o.timer.elapsed now > o.start * 2.0 then o.period / 2.0 else o.period } := by
  unfold hasten
  dsimp only
  split <;> rfl

@[simp] theorem motor_hasten : (o.hasten now).1.motor = o.motor := by rw [hasten_fst]

@[simp] theorem start_hasten : (o.hasten now).1.start = o.start := by rw [hasten_fst]

/-- The period comes down to a sixteenth of the starting period. -/
def Finishes : Prop := (o.hasten now).1.period ≤ o.start * (1.0 / 16.0)

instance : Decidable (o.Finishes now) :=
  inferInstanceAs (Decidable ((o.hasten now).1.period ≤ o.start * (1.0 / 16.0)))

variable {o}

theorem swing_of_finishes (h : o.Finishes b.clock) :
    ∃ journal, o.swing b =
      ({ (o.hasten b.clock).1 with
          timer := (o.hasten b.clock).1.timer.stop b.clock, phase := .stopped
          motor := (o.motor.set 0.0 { b with journal }).1 },
        (o.motor.set 0.0 { b with journal }).2) := by
  refine ⟨(b.note .info "Dance finished").journal, ?_⟩
  unfold Finishes at h
  unfold swing
  simp only [start_hasten, h, if_true, motor_hasten]
  rfl

theorem swing_of_not_finishes (h : ¬ o.Finishes b.clock) :
    o.swing b =
      ({ (o.hasten b.clock).1 with motor := (o.motor.set (o.hasten b.clock).2 b).1 },
        (o.motor.set (o.hasten b.clock).2 b).2) := by
  unfold Finishes at h
  unfold swing
  simp only [start_hasten, h, if_false, motor_hasten]

variable {k : Nat}

/-- After `k` halvings of the starting period, the swing may add one. -/
theorem period_hasten_eq (hstart : Roomy o.start) (hk : k ≤ 3)
    (hperiod : o.period = o.start / Single.ofInt (2 ^ k)) :
    (o.hasten now).1.period = o.start / Single.ofInt (2 ^ (k + o.halvingsIn now)) := by
  simp only [hasten_fst, halvingsIn]
  split
  next => rw [hperiod, hstart.div_div_two (by omega)]
  next => rw [hperiod, Nat.add_zero]

theorem finishes_iff (hstart : Roomy o.start) (hk : k ≤ 3)
    (hperiod : o.period = o.start / Single.ofInt (2 ^ k)) :
    o.Finishes now ↔ k + o.halvingsIn now = 4 ∨ o.start = infinity := by
  have hle : k + o.halvingsIn now ≤ 4 := by
    have hone := o.halvingsIn_le_one now
    omega
  rw [Finishes, period_hasten_eq now hstart hk hperiod, hstart.div_le_sixteenth_iff hle]

/-- All that a swing changes besides its motor. -/
theorem exists_swing_eq : ∃ motor, (o.swing b).1 =
    { o with
      motor
      period := (o.hasten b.clock).1.period
      timer := if o.Finishes b.clock then (o.hasten b.clock).1.timer.stop b.clock
        else (o.hasten b.clock).1.timer
      phase := if o.Finishes b.clock then .stopped else o.phase } := by
  by_cases h : o.Finishes b.clock
  · obtain ⟨journal, hswing⟩ := swing_of_finishes h
    exact ⟨_, by rw [hswing, if_pos h, if_pos h, hasten_fst]⟩
  · exact ⟨_, by rw [swing_of_not_finishes h, if_neg h, if_neg h, hasten_fst]⟩

@[simp] theorem asked_swing : (o.swing b).1.asked = o.asked := by
  obtain ⟨motor, h⟩ := exists_swing_eq (o := o) (b := b)
  rw [h]

@[simp] theorem restart_swing : (o.swing b).1.restart = o.restart := by
  obtain ⟨motor, h⟩ := exists_swing_eq (o := o) (b := b)
  rw [h]

@[simp] theorem start_swing : (o.swing b).1.start = o.start := by
  obtain ⟨motor, h⟩ := exists_swing_eq (o := o) (b := b)
  rw [h]

@[simp] theorem period_swing : (o.swing b).1.period = (o.hasten b.clock).1.period := by
  obtain ⟨motor, h⟩ := exists_swing_eq (o := o) (b := b)
  rw [h]

theorem phase_swing :
    (o.swing b).1.phase = if o.Finishes b.clock then .stopped else o.phase := by
  obtain ⟨motor, h⟩ := exists_swing_eq (o := o) (b := b)
  rw [h]

end Swing

@[simp] theorem motor_onset (o : DancingMotor) (now : Nat) : (o.onset now).motor = o.motor := by
  unfold onset
  split
  next => rfl
  next => split <;> rfl

@[simp] theorem restart_onset (o : DancingMotor) (now : Nat) : (o.onset now).restart = false := by
  unfold onset
  split
  next => rfl
  next => split <;> rfl

theorem phase_onset (o : DancingMotor) (now : Nat) : (o.onset now).phase = .dancing := by
  unfold onset
  split
  next => rfl
  next hphase => split <;> exact not_not.mp hphase

@[simp] theorem asked_step_value (o : DancingMotor) (b : Bench) :
    (o.step b).1.asked.value = o.asked.value := by
  by_cases h : o.Rests
  · rw [step_of_rests h]
  · obtain ⟨journal, hstep⟩ := step_of_not_rests h b
    rw [hstep, asked_swing, asked_onset_value]

/-- Every step forgets what was asked for, whatever it does. -/
@[simp] theorem restart_step (o : DancingMotor) (b : Bench) : (o.step b).1.restart = false := by
  by_cases h : o.Rests
  · rw [step_of_rests h]
    exact h.2
  · obtain ⟨journal, hstep⟩ := step_of_not_rests h b
    rw [hstep, restart_swing, restart_onset]

/-! ## Runs -/

/-- What happens to a dancing motor: time goes by, a connection writes, or it is stepped. -/
inductive Move
  | wait (span : Nat)
  | write (t : Target) (v : Float32)
  | step

end DancingMotor

/-- A dancing motor on its bench, and the number of halvings since the dance began or took over
another period. -/
structure Dance where
  motor : DancingMotor
  bench : Bench
  halvings : Nat := 0

namespace Dance

open DancingMotor (Move)

/-- A motor just made. -/
def made (motor : Motor) (period : Float32) (b : Bench) : Dance :=
  { motor := .make motor period b.clock, bench := b }

def next (d : Dance) : Move → Dance
  | .wait span => { d with bench := d.bench.advance span }
  | .write t v => { d with motor := d.motor.write t v }
  | .step =>
    { motor := (d.motor.step d.bench).1, bench := (d.motor.step d.bench).2
      halvings := (if d.motor.Renews then 0 else d.halvings) +
        if d.motor.Halves d.bench.clock then 1 else 0 }

/-- The dance with what was asked for put to `asked`. -/
def asking (d : Dance) (asked : Bool) : Dance :=
  { d with motor := { d.motor with restart := asked } }

theorem next_write_restart (d : Dance) (v : Float32) :
    d.next (.write .restart v) = if 0.5 ≤ v then d.asking true else d := by
  simp only [next, DancingMotor.write, asking]
  split <;> rfl

/-- Makes the moves in order. -/
def play (d : Dance) (moves : List Move) : Dance := moves.foldl next d

/-- While the motor dances, its period is the starting one after at most three halvings. -/
structure Sound (d : Dance) : Prop where
  asked : Roomy d.motor.asked.value
  start : Roomy d.motor.start
  dancing : d.motor.phase = .dancing →
    d.halvings ≤ 3 ∧ d.motor.period = d.motor.start / Single.ofInt (2 ^ d.halvings)

variable {d : Dance}

theorem sound_made (motor : Motor) (period : Float32) (b : Bench) : (made motor period b).Sound :=
  ⟨Single.roomy_atLeastMinPeriod period, Single.roomy_atLeastMinPeriod period, nofun⟩

/-- The number of halvings before a step counts. -/
def carried (d : Dance) : Nat := if d.motor.Renews then 0 else d.halvings

theorem Sound.onset (h : d.Sound) (hr : ¬ d.motor.Rests) (now : Nat) :
    Roomy (d.motor.onset now).start ∧ d.carried ≤ 3 ∧
      (d.motor.onset now).period =
        (d.motor.onset now).start / Single.ofInt (2 ^ d.carried) := by
  obtain ⟨⟨motor, asked, restart, phase, start, period, timer⟩, bench, halvings⟩ := d
  have hnew : asked.value = asked.value / Single.ofInt (2 ^ 0) := h.asked.div_one.symm
  cases phase with
  | idle => exact ⟨h.asked, Nat.zero_le _, hnew⟩
  | dancing =>
      cases hdirty : asked.dirty with
      | true => simpa [DancingMotor.onset, carried, DancingMotor.Renews, hdirty,
          DancingMotor.adopt] using ⟨h.asked, hnew⟩
      | false =>
          obtain ⟨hle, hperiod⟩ := h.dancing rfl
          simpa [DancingMotor.onset, carried, DancingMotor.Renews, hdirty] using
            ⟨h.start, hle, hperiod⟩
  | stopped =>
      cases restart with
      | true => exact ⟨h.asked, Nat.zero_le _, hnew⟩
      | false => exact absurd ⟨rfl, rfl⟩ hr

theorem motor_next_step_of_rests (h : d.motor.Rests) :
    (d.next .step).motor = { d.motor with motor := (d.motor.motor.set 0.0 d.bench).1 } :=
  congrArg Prod.fst (DancingMotor.step_of_rests h d.bench)

theorem motor_next_step_of_not_rests (h : ¬ d.motor.Rests) :
    ∃ journal, (d.next .step).motor =
      ((d.motor.onset d.bench.clock).swing { d.bench with journal }).1 := by
  obtain ⟨journal, hstep⟩ := DancingMotor.step_of_not_rests h d.bench
  exact ⟨journal, congrArg Prod.fst hstep⟩

theorem halvings_next_step (h : ¬ d.motor.Rests) : (d.next .step).halvings =
    d.carried + (d.motor.onset d.bench.clock).halvingsIn d.bench.clock := by
  simp [next, carried, DancingMotor.Halves, DancingMotor.halvingsIn, h]

/-- Without a rest, a step swings from the onset: the period is halved as often as was counted, and
the dance ends with the fourth halving or with an infinite period. -/
theorem Sound.step (h : d.Sound) (hr : ¬ d.motor.Rests) :
    let d' := d.next .step
    d'.motor.start = (d.motor.onset d.bench.clock).start ∧ d'.halvings ≤ 4 ∧
      d'.motor.period = d'.motor.start / Single.ofInt (2 ^ d'.halvings) ∧
      d'.motor.phase =
        if d'.halvings = 4 ∨ d'.motor.start = infinity then .stopped else .dancing := by
  obtain ⟨hstart, hcarried, hperiod⟩ := h.onset hr d.bench.clock
  obtain ⟨journal, hmotor⟩ := motor_next_step_of_not_rests hr
  have hcount := halvings_next_step hr
  have hone := (d.motor.onset d.bench.clock).halvingsIn_le_one d.bench.clock
  refine ⟨?_, by omega, ?_, ?_⟩
  · simp [hmotor]
  · simp [hmotor, hcount, DancingMotor.period_hasten_eq _ hstart hcarried hperiod]
  · simp [hmotor, hcount, DancingMotor.phase_swing, DancingMotor.phase_onset,
      DancingMotor.finishes_iff _ hstart hcarried hperiod]

theorem Sound.next (h : d.Sound) (move : Move) : (d.next move).Sound := by
  cases move with
  | wait span => exact ⟨h.asked, h.start, h.dancing⟩
  | write t v =>
      cases t with
      | period =>
          refine ⟨?_, h.start, h.dancing⟩
          change Roomy (d.motor.asked.set (atLeastMinPeriod v)).value
          unfold Param.set
          split
          next => exact h.asked
          next => exact Single.roomy_atLeastMinPeriod v
      | restart =>
          rw [next_write_restart]
          split <;> exact ⟨h.asked, h.start, h.dancing⟩
      | _ => exact ⟨h.asked, h.start, h.dancing⟩
  | step =>
      have hasked : Roomy (d.next .step).motor.asked.value := by
        change Roomy (d.motor.step d.bench).1.asked.value
        rw [DancingMotor.asked_step_value]
        exact h.asked
      by_cases hr : d.motor.Rests
      · have hmotor := motor_next_step_of_rests hr
        refine ⟨hasked, by simpa [hmotor] using h.start, ?_⟩
        intro hdancing
        rw [hmotor] at hdancing
        exact nomatch hr.1.symm.trans hdancing
      · obtain ⟨hstart, hle, hperiod, hphase⟩ := h.step hr
        refine ⟨hasked, hstart ▸ (h.onset hr _).1, ?_⟩
        intro hdancing
        rw [hphase] at hdancing
        split at hdancing
        next => exact nomatch hdancing
        next hgoes => exact ⟨by omega, hperiod⟩

theorem Sound.play (h : d.Sound) (moves : List Move) : (d.play moves).Sound := by
  induction moves generalizing d with
  | nil => exact h
  | cons move moves ih => exact ih (h.next move)

/-- Two infinite periods are never over. -/
theorem not_halves_of_infinite (h : (d.motor.onset d.bench.clock).start = infinity) :
    ¬ d.motor.Halves d.bench.clock := by
  intro hhalves
  have hover := hhalves.2
  rw [h, Single.infinity_mul Single.hasValue_two] at hover
  exact Single.not_infinity_lt _ hover

/-- A dance ends in the step with its fourth halving, or else in the first step with an infinite
period, and only there; until then each halving has brought the period down by half. -/
theorem ends_by_fourth_halving (motor : Motor) (period : Float32) (b : Bench) (moves : List Move) :
    let d := (made motor period b).play moves
    let d' := d.next .step
    (¬ d.motor.Rests → (d'.motor.phase = .stopped ↔
      (d.motor.Halves d.bench.clock ∧ d'.halvings = 4) ∨ d'.motor.start.isInf)) ∧
    (¬ d.motor.Rests → d'.motor.start.isInf → ¬ d.motor.Halves d.bench.clock) ∧
    (d'.motor.phase = .dancing →
      d'.halvings ≤ 3 ∧ d'.motor.period = d'.motor.start / Single.ofInt (2 ^ d'.halvings)) := by
  intro d d'
  have hd : d.Sound := (sound_made motor period b).play moves
  have hd' : d'.Sound := hd.next .step
  refine ⟨?_, ?_, hd'.dancing⟩
  · intro hr
    obtain ⟨-, -, -, hphase⟩ := hd.step hr
    have hlast : d'.halvings = 4 → d.motor.Halves d.bench.clock := by
      intro hfour
      have hcarried := (hd.onset hr d.bench.clock).2.1
      change d.carried + (if d.motor.Halves d.bench.clock then 1 else 0) = 4 at hfour
      by_contra hnot
      rw [if_neg hnot] at hfour
      omega
    rw [hphase, hd'.start.isInf_iff, and_iff_right_of_imp hlast]
    split
    next hends => exact iff_of_true rfl hends
    next hgoes => exact iff_of_false nofun hgoes
  · intro hr hinf
    refine not_halves_of_infinite ?_
    rw [← (hd.step hr).1]
    exact hd'.start.isInf_iff.mp hinf

/-- A servo that turns to an angle, on line 5. -/
def servo : Motor := { name := .ms18, pins := [{ wiring := { number := 5 }, mode := .servo }] }

/-- Stepped every three seconds, a dance with a period of a second ends in its fifth step. -/
theorem ends_by_fourth_halving_three_seconds :
    let moves : List Move :=
      [.step, .wait 3000000000, .step, .wait 3000000000, .write .restart 1.0, .step,
        .wait 3000000000, .step, .wait 3000000000]
    let d := (made servo 1.0 {}).play moves
    (¬ d.motor.Rests ∧ d.motor.Halves d.bench.clock ∧ (d.next .step).halvings = 4) ∧
      (d.next .step).motor.phase = .stopped := by
  intro moves d
  have hr : ¬ d.motor.Rests := by decide +kernel
  have hlast : d.motor.Halves d.bench.clock ∧ (d.next .step).halvings = 4 := by decide +kernel
  have hends := (ends_by_fourth_halving servo 1.0 {} moves).1 hr
  exact ⟨⟨hr, hlast⟩, hends.mpr (.inl hlast)⟩

/-- The first step with an infinite period ends the dance that it begins, with no halving. -/
theorem infinite_period_ends_at_once :
    let d := made servo (1.0 / 0.0) {}
    d.motor.phase = .idle ∧ (d.next .step).motor.phase = .stopped ∧
      ¬ d.motor.Halves d.bench.clock ∧ (d.next .step).halvings = 0 := by
  decide +kernel

end Dance

end Patchbay
