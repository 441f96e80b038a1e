import Mathlib.Data.List.Induction
import Patchbay.Proofs.Motor.Dancing
import Patchbay.Proofs.Output.Stepping

/-! # How a dance rests and begins again

When a dance is over, every step sets the motor to zero until a step finds that another dance was
asked for since the step before.  That dance has the period that was written last.  What is asked
for during a dance is forgotten. -/

namespace Patchbay

open Single (Roomy infinity)

namespace Dance

open DancingMotor (Move)

variable {d : Dance}

/-! ## What was written -/

/-- The starting period that was written last, or else the one at the making. -/
def lastPeriod (period : Float32) (moves : List Move) : Float32 :=
  (moves.filterMap fun
    | .write .period v => some v
    | _ => none).getLast?.getD period

/-- Another dance was asked for, and there was no step since. -/
def AskedSinceStep (moves : List Move) : Prop :=
  ∃ before v after, moves = before ++ .write .restart v :: after ∧ 0.5 ≤ v ∧ .step ∉ after

section

variable (period : Float32) (moves : List Move) (move : Move)

theorem play_append_singleton : d.play (moves ++ [move]) = (d.play moves).next move := by
  simp [play]

theorem lastPeriod_append : lastPeriod period (moves ++ [move]) =
    match move with
    | .write .period v => v
    | _ => lastPeriod period moves := by
  unfold lastPeriod
  rw [List.filterMap_append]
  cases move with
  | write t v => cases t <;> simp
  | _ => simp

theorem not_askedSinceStep_nil : ¬ AskedSinceStep [] := by
  rintro ⟨before, v, after, h, -⟩
  simp at h

theorem askedSinceStep_append : AskedSinceStep (moves ++ [move]) ↔
    (∃ v, move = .write .restart v ∧ 0.5 ≤ v) ∨ (move ≠ .step ∧ AskedSinceStep moves) := by
  have hsplit (moves : List Move) : AskedSinceStep moves ↔ ∃ before m after,
      moves = before ++ m :: after ∧ .step ∉ after ∧ ∃ v, m = .write .restart v ∧ 0.5 ≤ v := by
    constructor
    · rintro ⟨before, v, after, h, hv, hafter⟩
      exact ⟨before, _, after, h, hafter, v, rfl, hv⟩
    · rintro ⟨before, _, after, h, hafter, v, rfl, hv⟩
      exact ⟨before, v, after, h, hv, hafter⟩
  rw [hsplit, exists_since_append_iff, ← hsplit]

end

/-- A motor holds the period that was written last, and knows whether it was asked to dance again
since its last step. -/
structure Remembers (d : Dance) (period : Float32) (moves : List Move) : Prop where
  asked : d.motor.asked.value = atLeastMinPeriod (lastPeriod period moves)
  restart : d.motor.restart = true ↔ AskedSinceStep moves

theorem set_value_eq {p : Param} {v w : Float32} (hp : p.value = atLeastMinPeriod w) :
    (p.set (atLeastMinPeriod v)).value = atLeastMinPeriod v := by
  unfold Param.set
  split
  next hsame =>
    rw [hp] at hsame ⊢
    exact (Single.roomy_atLeastMinPeriod w).eq_of_beq (Single.roomy_atLeastMinPeriod v) hsame
  next => rfl

theorem Remembers.next {period : Float32} {moves : List Move} (h : d.Remembers period moves)
    (move : Move) : (d.next move).Remembers period (moves ++ [move]) := by
  constructor
  · rw [lastPeriod_append]
    cases move with
    | wait span => exact h.asked
    | write t v =>
        cases t with
        | period => exact set_value_eq h.asked
        | restart =>
            rw [next_write_restart]
            split <;> exact h.asked
        | _ => exact h.asked
    | step => exact (d.motor.asked_step_value d.bench).trans h.asked
  · rw [askedSinceStep_append]
    cases move with
    | wait span =>
        change d.motor.restart = true ↔ _
        simp [h.restart]
    | write t v =>
        cases t with
        | restart =>
            rw [next_write_restart]
            split
            next hv => simp [asking, hv]
            next hv => simp [hv, h.restart]
        | _ =>
            change d.motor.restart = true ↔ _
            simp [h.restart]
    | step =>
        change (d.motor.step d.bench).1.restart = true ↔ _
        simp

theorem remembers_play (motor : Motor) (period : Float32) (b : Bench) (moves : List Move) :
    ((made motor period b).play moves).Remembers period moves := by
  induction moves using List.reverseRecOn with
  | nil => exact ⟨rfl, iff_of_false Bool.false_ne_true not_askedSinceStep_nil⟩
  | append_singleton moves move ih =>
      rw [play_append_singleton]
      exact ih.next move

/-! ## At rest -/

/-- The next step sets the motor to a speed, and does nothing else to the lines. -/
def Commands (d : Dance) (speed : Float32) : Prop :=
  ∃ journal,
    (d.next .step).motor.motor = (d.motor.motor.set speed { d.bench with journal }).1 ∧
      (d.next .step).bench = (d.motor.motor.set speed { d.bench with journal }).2

theorem commands_zero_of_stopped (h : (d.next .step).motor.phase = .stopped) :
    d.Commands 0.0 := by
  unfold Commands
  simp only [next] at h ⊢
  by_cases hr : d.motor.Rests
  · rw [DancingMotor.step_of_rests hr]
    exact ⟨d.bench.journal, rfl, rfl⟩
  · obtain ⟨journal, hstep⟩ := DancingMotor.step_of_not_rests hr d.bench
    rw [hstep, DancingMotor.phase_swing, DancingMotor.phase_onset] at h
    have hends : (d.motor.onset d.bench.clock).Finishes d.bench.clock := by
      by_contra hgoes
      rw [if_neg hgoes] at h
      exact absurd h (by decide)
    obtain ⟨journal', hswing⟩ :=
      DancingMotor.swing_of_finishes (b := { d.bench with journal }) hends
    rw [hstep, hswing, DancingMotor.motor_onset]
    exact ⟨journal', rfl, rfl⟩

/-- No other dance is asked for. -/
def Quiet (moves : List Move) : Prop := ∀ v, .write .restart v ∈ moves → ¬ 0.5 ≤ v

theorem rests_next (h : d.motor.Rests) {move : Move} (hmove : Quiet [move]) :
    (d.next move).motor.Rests := by
  cases move with
  | wait span => exact h
  | write t v =>
      cases t with
      | restart =>
          rw [next_write_restart, if_neg (hmove v List.mem_cons_self)]
          exact h
      | _ => exact h
  | step =>
      rw [motor_next_step_of_rests h]
      exact h

theorem rests_play (h : d.motor.Rests) {moves : List Move} (hmoves : Quiet moves) :
    (d.play moves).motor.Rests := by
  induction moves generalizing d with
  | nil => exact h
  | cons move moves ih =>
      have hmove : Quiet [move] :=
        fun v hv => hmoves v (List.mem_singleton.mp hv ▸ List.mem_cons_self)
      exact ih (rests_next h hmove) fun v hv => hmoves v (List.mem_cons_of_mem _ hv)

/-! ## Another dance -/

/-- The next step begins a dance with a starting period. -/
structure Begins (d : Dance) (wanted : Float32) : Prop where
  swings : ∃ journal, (d.next .step).motor =
    ((d.motor.begun d.bench.clock).swing { d.bench with journal }).1
  start : (d.next .step).motor.start = wanted
  period : (d.next .step).motor.period = wanted
  halvings : (d.next .step).halvings = 0
  elapsed : (d.next .step).motor.timer.elapsed (d.next .step).bench.clock = 0.0
  /-- A dance with an infinite period is over at once. -/
  phase : (d.next .step).motor.phase = if wanted.isInf then .stopped else .dancing
  runs : (d.next .step).motor.phase = .dancing →
    (d.next .step).motor.timer = .started (d.next .step).bench.clock

theorem elapsed_started (now : Nat) : (Timer.started now).elapsed now = 0.0 := by
  change Duration.seconds (now - now) = 0.0
  rw [Nat.sub_self]
  rfl

/-- No time has passed in a dance that has just begun, so its first step halves nothing. -/
theorem not_over_begun {o : DancingMotor} (h : Roomy o.asked.value) (now : Nat) :
    ¬ (o.begun now).timer.elapsed now > (o.begun now).start * 2.0 := by
  change ¬ (Timer.started now).elapsed now > o.asked.value * 2.0
  rw [elapsed_started]
  exact h.not_double_lt_zero

theorem timer_swing_begun {o : DancingMotor} {b : Bench} (h : Roomy o.asked.value) :
    ((o.begun b.clock).swing b).1.timer =
      if (o.begun b.clock).Finishes b.clock then (Timer.started b.clock).stop b.clock
      else .started b.clock := by
  obtain ⟨motor, hswing⟩ := DancingMotor.exists_swing_eq (o := o.begun b.clock) (b := b)
  have htimer : ((o.begun b.clock).hasten b.clock).1.timer = .started b.clock := by
    rw [DancingMotor.hasten_fst]
    exact if_neg (not_over_begun h b.clock)
  rw [hswing, htimer]

theorem Sound.begins (h : d.Sound) (hphase : d.motor.phase = .stopped)
    (hrestart : d.motor.restart = true) : d.Begins d.motor.asked.value := by
  have hr : ¬ d.motor.Rests := fun hrests => Bool.false_ne_true (hrests.2.symm.trans hrestart)
  have honset : d.motor.onset d.bench.clock = d.motor.begun d.bench.clock :=
    if_pos (by rw [hphase]; decide)
  have hcarried : d.carried = 0 := by
    refine if_pos ?_
    unfold DancingMotor.Renews
    rw [hphase]
    exact hrestart
  obtain ⟨hstart, -, hperiod, hends⟩ := h.step hr
  have hhalvings : (d.next .step).halvings = 0 := by
    rw [halvings_next_step hr, hcarried, honset, DancingMotor.halvingsIn,
      if_neg (not_over_begun h.asked _)]
  obtain ⟨journal, hmotor⟩ := motor_next_step_of_not_rests hr
  rw [honset] at hstart hmotor
  have hclock : (d.next .step).bench.clock = d.bench.clock :=
    Bench.clock_of_outside (d.motor.outside_step d.bench)
  have htimer := timer_swing_begun (b := { d.bench with journal }) h.asked
  rw [← hmotor] at htimer
  refine ⟨⟨journal, hmotor⟩, hstart, ?_, hhalvings, ?_, ?_, ?_⟩
  · rw [hperiod, hstart, hhalvings]
    exact h.asked.div_one
  · rw [hclock, htimer]
    split <;> exact elapsed_started d.bench.clock
  · rw [hends, hhalvings, hstart]
    simp [h.asked.isInf_iff, DancingMotor.begun]
  · intro hdancing
    rw [hmotor, DancingMotor.phase_swing] at hdancing
    rw [hclock, htimer]
    split at hdancing
    next => exact absurd hdancing (by decide)
    next hgoes => exact if_neg hgoes

/-! ## Asking during a dance -/

theorem next_step_asking (h : d.motor.phase ≠ .stopped) (asked : Bool) :
    (d.asking asked).next .step = d.next .step := by
  have hr : ¬ d.motor.Rests := fun hrests => h hrests.1
  have hr' : ¬ (d.asking asked).motor.Rests := fun hrests => h hrests.1
  have hrenews : (d.asking asked).motor.Renews ↔ d.motor.Renews := by
    unfold DancingMotor.Renews
    cases hphase : d.motor.phase with
    | stopped => exact absurd hphase h
    | _ => simp [asking, hphase]
  have hcarried : (d.asking asked).carried = d.carried := by
    unfold carried
    simp only [hrenews]
    rfl
  have hhalvings : ((d.asking asked).next .step).halvings = (d.next .step).halvings := by
    rw [halvings_next_step hr, halvings_next_step hr', hcarried]
    rfl
  have hmotor : (d.asking asked).motor.step d.bench = d.motor.step d.bench := by
    unfold DancingMotor.step
    cases hphase : d.motor.phase with
    | stopped => exact absurd hphase h
    | _ => simp [asking, hphase]
  simp only [next] at hhalvings ⊢
  simp only [hhalvings]
  simp only [asking] at hmotor ⊢
  rw [hmotor]

/-- Until the next step of a dance it makes no difference whether another one was asked for. -/
theorem play_asking (h : d.motor.phase ≠ .stopped) (asked : Bool) {moves : List Move}
    (hstep : .step ∈ moves) : (d.asking asked).play moves = d.play moves := by
  induction moves generalizing d with
  | nil => exact absurd hstep List.not_mem_nil
  | cons move moves ih =>
      cases move with
      | step => exact congrArg (·.play moves) (next_step_asking h asked)
      | wait span => exact ih (d := d.next (.wait span)) h (by simpa using hstep)
      | write t v =>
          have hlater : .step ∈ moves := by simpa using hstep
          cases t with
          | restart =>
              change ((d.asking asked).next _).play moves = (d.next _).play moves
              rw [next_write_restart, next_write_restart]
              split
              next => rfl
              next => exact ih h hlater
          | period => exact ih (d := d.next (.write .period v)) h hlater
          | _ => exact ih h hlater

theorem play_write_restart (h : d.motor.phase ≠ .stopped) (v : Float32) {moves : List Move}
    (hstep : .step ∈ moves) : d.play (.write .restart v :: moves) = d.play moves := by
  change (d.next _).play moves = d.play moves
  rw [next_write_restart]
  split
  next => exact play_asking h true hstep
  next => rfl

/-- Once a dance is over, a step sets the motor to zero and leaves it at rest, unless another dance
was asked for since the step before.  Then the step begins one, anew and with the period that was
written last.  What is asked for before a dance is over comes to nothing. -/
theorem rests_until_asked (motor : Motor) (period : Float32) (b : Bench) (moves : List Move) :
    let d := (made motor period b).play moves
    ((d.next .step).motor.phase = .stopped → d.Commands 0.0) ∧
    (d.motor.phase = .stopped → ¬ AskedSinceStep moves → ∀ rest, Quiet rest →
      (d.play rest).motor.phase = .stopped ∧
        ((d.play rest).next .step).motor.phase = .stopped ∧ (d.play rest).Commands 0.0) ∧
    (d.motor.phase = .stopped → AskedSinceStep moves →
      d.Begins (atLeastMinPeriod (lastPeriod period moves))) ∧
    (d.motor.phase ≠ .stopped → ∀ v rest, .step ∈ rest →
      d.play (.write .restart v :: rest) = d.play rest) := by
  intro d
  have hd : d.Remembers period moves := remembers_play motor period b moves
  refine ⟨commands_zero_of_stopped, ?_, ?_, ?_⟩
  · intro hphase hnot rest hquiet
    have hrests : d.motor.Rests :=
      ⟨hphase, Bool.eq_false_of_not_eq_true fun hrestart => hnot (hd.restart.mp hrestart)⟩
    have hlater : (d.play rest).motor.Rests := rests_play hrests hquiet
    have hstays : ((d.play rest).next .step).motor.phase = .stopped := by
      rw [motor_next_step_of_rests hlater]
      exact hlater.1
    exact ⟨hlater.1, hstays, commands_zero_of_stopped hstays⟩
  · intro hphase hasked
    rw [← hd.asked]
    exact ((sound_made motor period b).play moves).begins hphase (hd.restart.mpr hasked)
  · intro hphase v rest hstep
    exact play_write_restart hphase v hstep

/-- To ask while a dance lasts comes to nothing, and four halvings end it.  Then a small write asks
for nothing either, but after a greater one there is another dance with the period of two seconds
that was written meanwhile. -/
theorem rests_until_asked_for_two_seconds :
    let dance : List Move := [.step, .wait 1500000000, .step, .wait 1500000000, .step,
      .wait 1500000000, .step, .wait 1500000000, .step]
    let moves : List Move :=
      dance ++ [.write .restart 0.2, .step, .write .period 2.0, .write .restart 1.0]
    let d₀ := (made servo 0.5 {}).play []
    let d := (made servo 0.5 {}).play dance
    let d' := (made servo 0.5 {}).play moves
    (d₀.motor.phase ≠ .stopped ∧ d₀.play (.write .restart 1.0 :: dance) = d) ∧
      (d.motor.phase = .stopped ∧ ¬ AskedSinceStep dance ∧
        Quiet [.write .restart 0.2]) ∧
      (d.play [.write .restart 0.2]).Commands 0.0 ∧
      (d'.motor.phase = .stopped ∧ AskedSinceStep moves) ∧ d'.Begins 2.0 := by
  intro dance moves d₀ d d'
  have hphase₀ : d₀.motor.phase ≠ .stopped := by decide +kernel
  have hphase : d.motor.phase = .stopped := by decide +kernel
  have hphase' : d'.motor.phase = .stopped := by decide +kernel
  have hnot : ¬ AskedSinceStep dance := by
    rintro ⟨before, v, after, h, -⟩
    have hmem : .write .restart v ∈ dance := by simp [h]
    simp [dance] at hmem
  have hquiet : Quiet [.write .restart 0.2] := by
    intro v hv
    obtain ⟨-, rfl⟩ := Move.write.inj (List.mem_singleton.mp hv)
    decide
  have hasked : AskedSinceStep moves :=
    ⟨dance ++ [.write .restart 0.2, .step, .write .period 2.0], 1.0, [], rfl, by decide, nofun⟩
  have hwanted : atLeastMinPeriod (lastPeriod 0.5 moves) = 2.0 := by decide +kernel
  obtain ⟨-, -, -, hlost⟩ := rests_until_asked servo 0.5 {} []
  obtain ⟨-, hrest, -, -⟩ := rests_until_asked servo 0.5 {} dance
  obtain ⟨-, -, hbegins, -⟩ := rests_until_asked servo 0.5 {} moves
  rw [hwanted] at hbegins
  exact ⟨⟨hphase₀, hlost hphase₀ _ _ (by simp [dance])⟩, ⟨hphase, hnot, hquiet⟩,
    (hrest hphase hnot _ hquiet).2.2, ⟨hphase', hasked⟩, hbegins hphase' hasked⟩

end Dance

end Patchbay
