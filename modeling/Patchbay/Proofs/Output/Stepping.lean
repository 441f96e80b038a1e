import Patchbay.Button
import Patchbay.Output.Basic
import Patchbay.Proofs.Bench.Queues

/-! # Steps of devices

Outputs drive their lines and make notes, and buttons only make notes.  None of them touches the
bytes that wait for gamepads, nor the clock.  What happened since the last step is read off a run
move by move. -/

namespace Patchbay

namespace Bench

/-- What is neither lines nor notes: the bytes that wait, and the time. -/
def outside (b : Bench) : List (String × List UInt8) × Nat × Sleeps := (b.waiting, b.time)

variable {b b' : Bench}

theorem queue_of_outside (h : b'.outside = b.outside) : b'.queue = b.queue := by
  unfold queue
  rw [show b'.waiting = b.waiting from congrArg Prod.fst h]

theorem time_of_outside (h : b'.outside = b.outside) : b'.time = b.time :=
  congrArg Prod.snd h

theorem clock_of_outside (h : b'.outside = b.outside) : b'.clock = b.clock :=
  (time_eq_iff.mp (time_of_outside h)).1

@[simp] theorem outside_note (b : Bench) (level : Note.Level) (text : String) :
    (b.note level text).outside = b.outside := rfl

@[simp] theorem outside_write (b : Bench) (pin : UInt8) (drive : Drive) :
    (b.write pin drive).outside = b.outside := rfl

end Bench

variable (b : Bench)

theorem Button.outside_poll (o : Button) : (o.poll b).2.outside = b.outside := by
  unfold poll
  dsimp only
  split <;> rfl

/-! ## Lights and motors -/

@[simp] theorem OutputPin.outside_setAll (pins : List OutputPin) (values : List Float32) :
    (setAll pins values b).2.outside = b.outside := by
  induction pins generalizing values b with
  | nil => rfl
  | cons pin pins ih =>
      cases values with
      | nil => rfl
      | cons v values => exact (ih (pin.set v b).2 values).trans (Bench.outside_write ..)

@[simp] theorem OutputPin.power_setAll (pins : List OutputPin) (values : List Float32) :
    (setAll pins values b).2.power = b.power := by
  induction pins generalizing values b with
  | nil => rfl
  | cons pin pins ih =>
      cases values with
      | nil => rfl
      | cons v values => exact ih (pin.set v b).2 values

@[simp] theorem Light.outside_setColor (l : Light) (color : Color) :
    (l.setColor color b).2.outside = b.outside := by
  simp [setColor]

@[simp] theorem Motor.outside_set (m : Motor) (speed : Float32) :
    (m.set speed b).2.outside = b.outside := by
  simp [set]

/-! ## Outputs -/

theorem SolidLight.outside_step (o : SolidLight) : (o.step b).2.outside = b.outside := by
  unfold step
  split <;> simp

theorem CyclingLight.outside_step (o : CyclingLight) : (o.step b).2.outside = b.outside := by
  simp [step]

theorem FlashingLight.outside_step (o : FlashingLight) : (o.step b).2.outside = b.outside := by
  simp [step]

theorem ConstantMotor.outside_step (o : ConstantMotor) : (o.step b).2.outside = b.outside := by
  unfold step
  split <;> simp

theorem OscillatingMotor.outside_step (o : OscillatingMotor) :
    (o.step b).2.outside = b.outside := by
  simp [step]

namespace DancingMotor

theorem outside_swing (o : DancingMotor) : (o.swing b).2.outside = b.outside := by
  unfold swing
  dsimp only
  split <;> simp

theorem outside_begin (o : DancingMotor) : (o.begin b).2.outside = b.outside := rfl

theorem outside_keepOn (o : DancingMotor) : (o.keepOn b).2.outside = b.outside := by
  unfold keepOn
  split <;> rfl

theorem outside_step (o : DancingMotor) : (o.step b).2.outside = b.outside := by
  unfold step
  dsimp only
  split <;> simp [outside_swing, outside_begin, outside_keepOn]

end DancingMotor

theorem Output.outside_step (o : Output) : (o.step b).2.outside = b.outside := by
  cases o with
  | solid o => exact o.outside_step b
  | cycling o => exact o.outside_step b
  | flashing o => exact o.outside_step b
  | constant o => exact o.outside_step b
  | oscillating o => exact o.outside_step b
  | dancing o => exact o.outside_step b

/-! ## Since the last step -/

/-- Something that has happened since the last step of a run is the newest move, or it happened
before and the newest move is no step. -/
theorem exists_since_append_iff {α : Type} {step : α} {P : List α → α → Prop} {moves : List α}
    {move : α} :
    (∃ before m after, moves ++ [move] = before ++ m :: after ∧ step ∉ after ∧ P before m) ↔
      P moves move ∨ move ≠ step ∧
        ∃ before m after, moves = before ++ m :: after ∧ step ∉ after ∧ P before m := by
  constructor
  · rintro ⟨before, m, after, h, hafter, hm⟩
    rcases List.eq_nil_or_concat after with rfl | ⟨after, last, rfl⟩
    · obtain ⟨rfl, hlast⟩ := List.append_inj' h rfl
      obtain rfl := List.singleton_inj.mp hlast
      exact .inl hm
    · rw [List.concat_eq_append] at h hafter
      rw [← List.cons_append, ← List.append_assoc] at h
      obtain ⟨rfl, hlast⟩ := List.append_inj' h rfl
      obtain rfl := List.singleton_inj.mp hlast
      refine .inr ⟨?_, before, m, after, rfl, ?_, hm⟩
      · rintro rfl
        exact hafter (by simp)
      · intro hmem
        exact hafter (List.mem_append_left _ hmem)
  · rintro (hm | ⟨hmove, before, m, after, rfl, hafter, hm⟩)
    · exact ⟨moves, move, [], rfl, List.not_mem_nil, hm⟩
    · exact ⟨before, m, after ++ [move], by simp, by simp [hafter, hmove.symm], hm⟩

end Patchbay
