import Patchbay.Proofs.Bench.Apart
import Patchbay.Proofs.Motor.Dancing
import Patchbay.Proofs.Output.Opening
import Patchbay.Proofs.Output.Writing
import Patchbay.Proofs.Rig.Devices

/-! # Outputs keep to their pins

Building an output looks at the lines of its configured pins only, and stepping it at the lines of
the pins that it has.  It has the same pins ever after. -/

namespace Patchbay

open Bench (SameAt)

variable {pins : List UInt8} {ε : Type}

/-! ## Lines -/

theorem Bench.keeps_write (pin : UInt8) (drive : Drive) :
    Keeps [pin] fun b => ((), b.write pin drive) where
  others b := .setLine_of_not_mem (by simp) b _
  same h := ⟨rfl, h.setLine fun hmem => by rw [h.line _ hmem]⟩

theorem Bench.local_claim (pin : UInt8) : Local [pin] (Bench.claim pin) where
  others {b _ _} h := by
    rw [Bench.claim_eq] at h
    cases hrefusal : b.refusal pin with
    | some cause =>
        rw [hrefusal] at h
        exact nomatch h
    | none =>
        rw [hrefusal] at h
        cases h
        exact .setLine_of_not_mem (by simp) b _
  same {b b' _ _} hb h := by
    have hline : b'.line pin = b.line pin := hb.line pin (List.mem_singleton_self pin)
    have hsame : b'.refusal pin = b.refusal pin := by
      unfold Bench.refusal
      rw [hline]
    rw [Bench.claim_eq] at h
    cases hrefusal : b.refusal pin with
    | some cause =>
        rw [hrefusal] at h
        exact nomatch h
    | none =>
        rw [hrefusal] at h
        cases h
        refine ⟨b'.taken pin, ?_, hb.setLine fun _ => by rw [hline]⟩
        rw [Bench.claim_eq, hsame, hrefusal]

/-! ## Pins -/

namespace OutputPin

theorem keeps_set (p : OutputPin) (v : Float32) : Keeps [p.number] (p.set v) :=
  (Bench.keeps_write p.number (p.resolve v).2).bind fun _ =>
    Keeps.pure { p with value := (p.resolve v).1 }

theorem keeps_setAll (pins : List OutputPin) (values : List Float32) :
    Keeps (pins.map number) (setAll pins values) := by
  induction pins generalizing values with
  | nil => exact .pure []
  | cons pin pins ih =>
      cases values with
      | nil => exact .pure (pin :: pins)
      | cons v values =>
          have hfirst : Keeps ((pin :: pins).map number) (pin.set v) :=
            (pin.keeps_set v).mono (by simp)
          have hrest : Keeps ((pin :: pins).map number) (setAll pins values) :=
            (ih values).mono (by simp)
          exact hfirst.bind fun pin => hrest.bind fun pins => .pure (pin :: pins)

theorem local_attach (mode : OutputMode) (wiring : Wiring) :
    Local [wiring.number] (attach mode wiring) :=
  (Bench.local_claim wiring.number).bind fun _ => .of_keeps (keeps_set { wiring, mode } 0.0)

theorem local_attachAll (mode : OutputMode) (wirings : List Wiring) :
    Local (wirings.map Wiring.number) (attachAll mode wirings) := by
  induction wirings with
  | nil => exact .pure []
  | cons wiring rest ih =>
      have hfirst : Local ((wiring :: rest).map Wiring.number) (attach mode wiring) :=
        (local_attach mode wiring).mono (by simp)
      have hrest : Local ((wiring :: rest).map Wiring.number) (attachAll mode rest) :=
        ih.mono (by simp)
      refine (hfirst.bind fun pin => hrest.bind fun pins => .pure (pin :: pins)).congr ?_
      intro b pins b₁
      rw [attachAll, Outcome.run_bind_eq_ok_iff]
      constructor
      · intro h
        split at h
        next => cases h
        next pin b₂ hpin =>
          split at h
          next => cases h
          next others b₃ hothers =>
            cases h
            exact ⟨pin, b₂, hpin, Outcome.run_bind_eq_ok_iff.mpr ⟨others, _, hothers, rfl⟩⟩
      · rintro ⟨pin, b₂, hpin, h⟩
        obtain ⟨others, b₃, hothers, h⟩ := Outcome.run_bind_eq_ok_iff.mp h
        cases h
        simp only [hpin, hothers]

end OutputPin

/-! ## Lights and motors -/

theorem Light.keeps_setColor (l : Light) (color : Color) : Keeps l.numbers (l.setColor color) := by
  have hset := (OutputPin.keeps_setAll l.pins color.channels).map fun pins => { l with color, pins }
  exact hset.after_note .debug s!"{l.name.text} set to {color.text}"

theorem Motor.keeps_set (m : Motor) (speed : Float32) : Keeps m.numbers (m.set speed) := by
  let value := Single.clamp (-1.0) 1.0 speed
  have hset (power : Float32 → Float32 → Float32) :=
    let values := m.name.pinValues power value
    let shown := Text.bracketed (values.map Decimal.tagged)
    ((OutputPin.keeps_setAll m.pins values).map fun pins => { m with value, pins }).after_note
      .debug s!"{m.name.text} motor set to {Decimal.plain value} ({shown})"
  exact Keeps.of_bench fun _ power => hset power

theorem Light.local_attach (name : LightName) (drive : Config.LightDrive) (pins : List UInt8) :
    Local pins (attach name drive pins) := by
  have hpins := OutputPin.local_attachAll (outputMode drive)
    (pins.map fun number => ({ number, invert := name.inverted } : Wiring))
  rw [List.map_map, show Wiring.number ∘ _ = id from rfl, List.map_id] at hpins
  unfold attach
  split
  · exact .throw_bind _ _
  · exact (hpins.adaptExcept _).bind fun _ => (Local.note _ _).bind fun _ => .pure _

theorem Motor.local_attach (name : MotorName) (pins : List UInt8) :
    Local pins (attach name pins) := by
  have hpins := OutputPin.local_attachAll name.outputMode
    (pins.map fun number => ({ number } : Wiring))
  rw [List.map_map, show Wiring.number ∘ _ = id from rfl, List.map_id] at hpins
  unfold attach
  split
  · exact .throw_bind _ _
  · exact (hpins.adaptExcept _).bind fun _ => (Local.note _ _).bind fun _ => .pure _

/-! ## Building -/

namespace Output

open Config

theorem local_ofLight (c : LightConfig) : Local c.pins (ofLight c) := by
  unfold ofLight
  cases LightName.ofText? c.name with
  | none => exact .throw _
  | some name =>
      cases Color.ofName? c.color with
      | none => exact .throw _
      | some color =>
          dsimp only
          split
          · exact .throw_bind _ _
          have hlight := Light.local_attach name c.drive c.pins
          split
          · exact (Local.note _ _).bind fun _ => hlight.bind fun _ =>
              .get_bind (fun h => by rw [h]) fun _ => .pure _
          · exact hlight.bind fun _ => .get_bind (fun h => by rw [h]) fun _ => .pure _

theorem local_requireUnit (key : String) (v : Float32) :
    Local pins (requireUnit key v) := by
  unfold requireUnit
  split
  · exact .pure ()
  · exact .throw _

theorem local_ofMotor (c : MotorConfig) : Local c.pinList (ofMotor c) := by
  unfold ofMotor
  cases MotorName.ofText? c.name with
  | none => exact .throw _
  | some name =>
      dsimp only
      split
      · exact .throw_bind _ _
      have hmotor := Motor.local_attach name c.pinList
      cases c.mode with
      | constant => exact (local_requireUnit _ _).bind fun _ => hmotor.bind fun _ => .pure _
      | oscillate =>
          exact (local_requireUnit _ _).bind fun _ => hmotor.bind fun _ =>
            .get_bind (fun h => by rw [h]) fun _ => .pure _
      | dance =>
          exact hmotor.bind fun _ => .get_bind (fun h => by rw [h]) fun _ => .pure _

theorem local_ofConfig (c : OutputConfig) : Local c.pins (ofConfig c) := by
  cases c with
  | light c => exact local_ofLight c
  | motor c => exact local_ofMotor c

end Output

/-! ## Steps -/

theorem SolidLight.keeps_step (o : SolidLight) : Keeps o.light.numbers o.step := by
  have hshow := (o.light.keeps_setColor (o.color.value.scale o.brightness.value)).map fun light =>
    ({ light, color := o.color.clean, brightness := o.brightness.clean } : SolidLight)
  by_cases hdirty : o.color.dirty || o.brightness.dirty
  · rw [show o.step = _ from funext fun b => if_pos hdirty]
    exact hshow
  · rw [show o.step = _ from funext fun b => if_neg hdirty]
    exact .pure o

theorem CyclingLight.keeps_step (o : CyclingLight) : Keeps o.light.numbers o.step := by
  have hshow (now : ℕ) (_ : Float32 → Float32 → Float32) :=
    let hue := o.timer.elapsed now * 360.0 / o.period.value
    let turn := if hue > 360.0 then (360.0, o.timer.reset now) else (hue, o.timer)
    (o.light.keeps_setColor (.ofHue turn.1 1.0 o.brightness.value)).map fun light =>
      { o with light, timer := turn.2 }
  exact Keeps.of_bench hshow

theorem FlashingLight.keeps_step (o : FlashingLight) : Keeps o.light.numbers o.step := by
  have hshow (now : ℕ) (_ : Float32 → Float32 → Float32) :=
    let phase := 2.0 * Single.pi * o.timer.elapsed now / o.period.value
    let level := (phase.sin + 1.0) / 2.0
    (o.light.keeps_setColor ((o.color.value.scale o.brightness.value).scale level)).map fun light =>
      { o with light }
  exact Keeps.of_bench hshow

theorem ConstantMotor.keeps_step (o : ConstantMotor) : Keeps o.motor.numbers o.step := by
  have hturn := (o.motor.keeps_set o.value.value).map fun motor =>
    ({ motor, value := o.value.clean } : ConstantMotor)
  by_cases hdirty : o.value.dirty
  · rw [show o.step = _ from funext fun b => if_pos hdirty]
    exact hturn
  · rw [show o.step = _ from funext fun b => if_neg hdirty]
    exact .pure o

theorem OscillatingMotor.keeps_step (o : OscillatingMotor) : Keeps o.motor.numbers o.step := by
  have hturn (now : ℕ) (_ : Float32 → Float32 → Float32) :=
    let elapsed := o.timer.elapsed now
    let turn := if elapsed > o.period.value then (0.0, o.timer.reset now)
      else (wave o.period.value elapsed, o.timer)
    (o.motor.keeps_set (turn.1 * o.max.value)).map fun motor =>
      { o with motor, timer := turn.2 }
  exact Keeps.of_bench hturn

namespace DancingMotor

theorem keeps_swing (o : DancingMotor) : Keeps o.motor.numbers o.swing := by
  have hmove (now : ℕ) (_ : Float32 → Float32 → Float32) : Keeps o.motor.numbers fun b =>
      if o.Finishes now then
        ({ (o.hasten now).1 with
            timer := (o.hasten now).1.timer.stop now, phase := .stopped
            motor := (o.motor.set 0.0 b).1 },
          (o.motor.set 0.0 b).2)
      else
        ({ (o.hasten now).1 with motor := (o.motor.set (o.hasten now).2 b).1 },
          (o.motor.set (o.hasten now).2 b).2) := by
    by_cases h : o.Finishes now
    · simp only [h, if_true]
      exact (o.motor.keeps_set 0.0).map fun motor =>
        { (o.hasten now).1 with
          timer := (o.hasten now).1.timer.stop now, phase := .stopped, motor }
    · simp only [h, if_false]
      exact (o.motor.keeps_set (o.hasten now).2).map fun motor =>
        { (o.hasten now).1 with motor }
  refine (Keeps.of_bench hmove).up_to_notes fun b => ?_
  by_cases h : o.Finishes b.clock
  · obtain ⟨journal, hswing⟩ := swing_of_finishes h
    exact ⟨journal, by rw [hswing, if_pos h]⟩
  · exact ⟨b.journal, by rw [swing_of_not_finishes h, if_neg h]⟩

theorem keeps_step (o : DancingMotor) : Keeps o.motor.numbers o.step := by
  by_cases h : o.Rests
  · rw [show o.step = _ from funext (step_of_rests h)]
    exact (o.motor.keeps_set 0.0).map fun motor => { o with motor }
  · have hswing (now : ℕ) (_ : Float32 → Float32 → Float32) :
        Keeps o.motor.numbers (o.onset now).swing := by
      have hkeeps := keeps_swing (o.onset now)
      rwa [motor_onset] at hkeeps
    exact (Keeps.of_bench hswing).up_to_notes (step_of_not_rests h)

end DancingMotor

theorem Output.keeps_step (o : Output) : Keeps o.numbers o.step := by
  cases o with
  | solid o => exact o.keeps_step.map solid
  | cycling o => exact o.keeps_step.map cycling
  | flashing o => exact o.keeps_step.map flashing
  | constant o => exact o.keeps_step.map constant
  | oscillating o => exact o.keeps_step.map oscillating
  | dancing o => exact o.keeps_step.map dancing

/-! ## The pins ever after -/

variable (b : Bench)

theorem DancingMotor.numbers_swing (o : DancingMotor) :
    (o.swing b).1.motor.numbers = o.motor.numbers := by
  by_cases h : o.Finishes b.clock
  · obtain ⟨journal, hswing⟩ := swing_of_finishes h
    rw [hswing]
    exact o.motor.numbers_set ..
  · rw [swing_of_not_finishes h]
    exact o.motor.numbers_set ..

theorem DancingMotor.numbers_step (o : DancingMotor) :
    (o.step b).1.motor.numbers = o.motor.numbers := by
  by_cases h : o.Rests
  · rw [step_of_rests h]
    exact o.motor.numbers_set ..
  · obtain ⟨journal, hstep⟩ := step_of_not_rests h b
    rw [hstep, numbers_swing, motor_onset]

theorem Output.numbers_step (o : Output) : (o.step b).1.numbers = o.numbers := by
  cases o with
  | solid o =>
      change (o.step b).1.light.numbers = o.light.numbers
      unfold SolidLight.step
      split
      · exact o.light.numbers_setColor ..
      · rfl
  | cycling o => exact o.light.numbers_setColor ..
  | flashing o => exact o.light.numbers_setColor ..
  | constant o =>
      change (o.step b).1.motor.numbers = o.motor.numbers
      unfold ConstantMotor.step
      split
      · exact o.motor.numbers_set ..
      · rfl
  | oscillating o => exact o.motor.numbers_set ..
  | dancing o => exact o.numbers_step b

theorem Output.numbers_write (o : Output) (t : Target) (v : Float32) :
    (o.write t v).numbers = o.numbers := by
  cases o with
  | dancing o =>
      cases t with
      | restart =>
          change (o.write .restart v).motor.numbers = o.motor.numbers
          rw [o.write_restart]
      | _ => rfl
  | _ => cases t <;> rfl

end Patchbay
