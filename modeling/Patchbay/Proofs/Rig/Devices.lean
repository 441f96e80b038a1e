import Patchbay.Input
import Patchbay.Output.Basic
import Patchbay.Proofs.Bench.Attempt

/-! # The pins of devices

Building a device from its configuration takes the configured pins, all or none of them.  Faults
that are found before the pins are taken leave the bench alone; nothing fails afterwards. -/

namespace Patchbay

open Config

/-! ## Inputs -/

/-- The pins that an input is configured to have. -/
def Config.InputConfig.pins : InputConfig → List UInt8
  | .controller _ => []
  | .button pin _ => [pin]

theorem Button.attach_attempt (pin : UInt8) (toggle : Bool) (b : Bench) :
    Attempt [pin] (fun o => numbers o = [pin]) b (attach pin toggle b) :=
  (InputPin.attach_attempt { number := pin, invert := true } b).bind
    fun _ _ h => ⟨_, _, rfl, congrArg ([·]) h, rfl⟩

theorem Input.ofConfig_attempt (c : InputConfig) (b : Bench) :
    Attempt c.pins (fun i => numbers i = c.pins) b (ofConfig c b) := by
  cases c with
  | controller id => exact .of_pure rfl
  | button pin toggle => exact (Button.attach_attempt pin toggle b).adaptExcept.map fun _ => id

/-! ## Outputs -/

/-- The pins that an output is configured to have. -/
def Config.OutputConfig.pins : OutputConfig → List UInt8
  | .light c => c.pins
  | .motor c => c.pinList

theorem Light.attach_attempt (name : LightName) (drive : LightDrive) (pins : List UInt8)
    (b : Bench) : Attempt pins (fun l => numbers l = pins) b (attach name drive pins b) := by
  unfold attach
  by_cases hcount : pins.length ≠ name.pinCount
  · rw [if_pos hcount]
    exact .throw_bind
  · rw [if_neg hcount]
    have hpins := OutputPin.attachAll_map_attempt (outputMode drive)
      (fun number => { number, invert := name.inverted }) (fun _ => rfl) pins b
    exact hpins.adaptExcept.bind fun _ _ h => ⟨_, _, rfl, h, rfl⟩

theorem Motor.attach_attempt (name : MotorName) (pins : List UInt8) (b : Bench) :
    Attempt pins (fun m => numbers m = pins) b (attach name pins b) := by
  unfold attach
  by_cases hcount : pins.length ≠ name.pinCount
  · rw [if_pos hcount]
    exact .throw_bind
  · rw [if_neg hcount]
    have hpins := OutputPin.attachAll_map_attempt name.outputMode
      (fun number => { number }) (fun _ => rfl) pins b
    exact hpins.adaptExcept.bind fun _ _ h => ⟨_, _, rfl, h, rfl⟩

namespace Output

theorem ofLight_attempt (c : LightConfig) (b : Bench) :
    Attempt c.pins (fun o => numbers o = c.pins) b (ofLight c b) := by
  unfold ofLight
  cases LightName.ofText? c.name with
  | none => exact .of_throw _
  | some name =>
      cases Color.ofName? c.color with
      | none => exact .of_throw _
      | some color =>
          dsimp only
          by_cases hperiod : c.period.value ≤ 0.0
          · rw [if_pos hperiod]
            exact .throw_bind
          rw [if_neg hperiod]
          -- The light is taken in the same way whether or not its colour draws a warning.
          split
          · refine .modify_bind rfl ((Light.attach_attempt ..).bind fun light b₁ h => ?_)
            exact ⟨_, b₁, rfl, by cases c.mode <;> exact h, rfl⟩
          · refine (Light.attach_attempt ..).bind fun light b₁ h => ?_
            exact ⟨_, b₁, rfl, by cases c.mode <;> exact h, rfl⟩

theorem requireUnit_bind {pins : List UInt8} {α : Type} {Q : α → Prop} {b : Bench}
    {key : String} {v : Float32} {f : Unit → EStateM RigError Bench α}
    (hf : Attempt pins Q b (f () b)) :
    Attempt pins Q b ((requireUnit key v >>= f) b) := by
  unfold requireUnit
  split
  · exact hf
  · exact .throw_bind

theorem ofMotor_attempt (c : MotorConfig) (b : Bench) :
    Attempt c.pinList (fun o => numbers o = c.pinList) b (ofMotor c b) := by
  unfold ofMotor
  cases MotorName.ofText? c.name with
  | none => exact .of_throw _
  | some name =>
      dsimp only
      by_cases hperiod : c.period.value ≤ 0.0
      · rw [if_pos hperiod]
        exact .throw_bind
      rw [if_neg hperiod]
      have hmotor := Motor.attach_attempt name c.pinList b
      cases c.mode with
      | constant => exact requireUnit_bind (hmotor.bind fun _ _ h => ⟨_, _, rfl, h, rfl⟩)
      | oscillate => exact requireUnit_bind (hmotor.bind fun _ _ h => ⟨_, _, rfl, h, rfl⟩)
      | dance => exact hmotor.bind fun _ _ h => ⟨_, _, rfl, h, rfl⟩

theorem ofConfig_attempt (c : OutputConfig) (b : Bench) :
    Attempt c.pins (fun o => numbers o = c.pins) b (ofConfig c b) := by
  cases c with
  | light c => exact ofLight_attempt c b
  | motor c => exact ofMotor_attempt c b

end Output

end Patchbay
