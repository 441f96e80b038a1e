import Patchbay.Output.Basic

/-! # Writes to different parameters

A write sets the parameters of its target and nothing else, so writes without a common parameter
may change places. -/

namespace Patchbay

/-! ## Common parameters -/

namespace Target

/-- The parameters that a write to a target sets: a colour is its three channels.  A restart is no
parameter, it is only ever asked for. -/
def parameters : Target → List Target
  | color => [channel .r, channel .g, channel .b]
  | restart => []
  | target => [target]

/-- Writes to the two set no common parameter. -/
def Apart (t u : Target) : Prop := ∀ p ∈ t.parameters, p ∉ u.parameters

instance (t u : Target) : Decidable (t.Apart u) :=
  inferInstanceAs (Decidable (∀ p ∈ t.parameters, p ∉ u.parameters))

@[simp] theorem apart_self_iff {t : Target} : t.Apart t ↔ t = restart := by
  cases t <;> simp [Apart, parameters]

@[simp] theorem not_apart_color_channel (c : Channel) : ¬ color.Apart (channel c) := by
  cases c <;> decide

@[simp] theorem not_apart_channel_color (c : Channel) : ¬ (channel c).Apart color := by
  cases c <;> decide

theorem Apart.channel_ne {c d : Channel} (h : (channel c).Apart (channel d)) : c ≠ d := by
  rintro rfl
  simp at h

end Target

theorem ColorParam.set_comm (p : ColorParam) {c d : Channel} (h : c ≠ d) (v w : Float32) :
    (p.set c v).set d w = (p.set d w).set c v := by
  cases c <;> cases d
  all_goals first | rfl | exact absurd rfl h

/-! ## Outputs -/

section Outputs

variable {t u : Target} (v w : Float32)

theorem SolidLight.write_comm (o : SolidLight) (h : t.Apart u) :
    (o.write t v).write u w = (o.write u w).write t v := by
  cases t <;> cases u
  case channel.channel c d => simp only [write, o.color.set_comm h.channel_ne]
  all_goals first | rfl | exact absurd h (by simp)

theorem CyclingLight.write_comm (o : CyclingLight) (h : t.Apart u) :
    (o.write t v).write u w = (o.write u w).write t v := by
  cases t <;> cases u
  all_goals first | rfl | exact absurd h (by simp)

theorem FlashingLight.write_comm (o : FlashingLight) (h : t.Apart u) :
    (o.write t v).write u w = (o.write u w).write t v := by
  cases t <;> cases u
  case channel.channel c d => simp only [write, o.color.set_comm h.channel_ne]
  all_goals first | rfl | exact absurd h (by simp)

theorem ConstantMotor.write_comm (o : ConstantMotor) (h : t.Apart u) :
    (o.write t v).write u w = (o.write u w).write t v := by
  cases t <;> cases u
  all_goals first | rfl | exact absurd h (by simp)

theorem OscillatingMotor.write_comm (o : OscillatingMotor) (h : t.Apart u) :
    (o.write t v).write u w = (o.write u w).write t v := by
  cases t <;> cases u
  all_goals first | rfl | exact absurd h (by simp)

/-- A dance is asked for until the next step. -/
theorem DancingMotor.write_restart (o : DancingMotor) :
    o.write .restart v = { o with restart := o.restart || decide (0.5 ≤ v) } := by
  by_cases hv : 0.5 ≤ v <;> simp [write, hv]

theorem DancingMotor.write_comm (o : DancingMotor) (h : t.Apart u) :
    (o.write t v).write u w = (o.write u w).write t v := by
  cases t <;> cases u
  case restart.restart => simp only [write_restart, Bool.or_right_comm]
  case restart.period | period.restart => simp only [write_restart]; rfl
  case period.period => exact absurd h (by simp)
  all_goals rfl

/-- Writes without a common parameter may change places. -/
theorem Output.write_comm (o : Output) (h : t.Apart u) :
    (o.write t v).write u w = (o.write u w).write t v := by
  cases o with
  | solid o => exact congrArg solid (o.write_comm v w h)
  | cycling o => exact congrArg cycling (o.write_comm v w h)
  | flashing o => exact congrArg flashing (o.write_comm v w h)
  | constant o => exact congrArg constant (o.write_comm v w h)
  | oscillating o => exact congrArg oscillating (o.write_comm v w h)
  | dancing o => exact congrArg dancing (o.write_comm v w h)

end Outputs

end Patchbay
