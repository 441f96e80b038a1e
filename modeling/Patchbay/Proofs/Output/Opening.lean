import Patchbay.Output.Basic
import Patchbay.Proofs.Bench.Driving
import Patchbay.Proofs.Outcome

/-! # Lights and motors in use

An opened light or motor has as many pins as its name asks for, all of different numbers and
connected in one way.  That stays so however it is set, and setting it drives each of its lines once
and no other. -/

namespace Patchbay

/-! ## Wired pins -/

/-- Pins of different numbers that are connected in one mode, inverted or not, and not configured in
any other way. -/
structure Wired (mode : OutputMode) (invert : Bool) (pins : List OutputPin) : Prop where
  nodup : (pins.map OutputPin.number).Nodup
  bare : ∀ p ∈ pins, p.bare = { wiring := { number := p.number, invert }, mode }

namespace Wired

variable {mode : OutputMode} {invert : Bool} {pins : List OutputPin} {p : OutputPin}

theorem mode_eq (h : Wired mode invert pins) (hp : p ∈ pins) : p.mode = mode :=
  congrArg OutputPin.mode (h.bare p hp)

theorem wiring_eq (h : Wired mode invert pins) (hp : p ∈ pins) :
    p.wiring = { number := p.number, invert } :=
  congrArg OutputPin.wiring (h.bare p hp)

theorem setAll (h : Wired mode invert pins) (values : List Float32) (b : Bench) :
    Wired mode invert (OutputPin.setAll pins values b).1 := by
  have hbare : (OutputPin.setAll pins values b).1.map OutputPin.bare = pins.map OutputPin.bare :=
    OutputPin.map_bare_setAll
  constructor
  · rw [OutputPin.map_number_setAll]
    exact h.nodup
  · intro p hp
    have hmem : p.bare ∈ pins.map OutputPin.bare := hbare ▸ List.mem_map_of_mem hp
    obtain ⟨q, hq, heq⟩ := List.mem_map.mp hmem
    have hnumber : q.number = p.number :=
      show q.bare.number = p.bare.number from congrArg OutputPin.number heq
    rw [← heq, h.bare q hq, hnumber]

end Wired

/-- Pins that were attached together are wired, and their lines are at zero. -/
theorem OutputPin.wired_of_attachAll {mode : OutputMode} {invert : Bool} {numbers : List UInt8}
    {b b' : Bench} {pins : List OutputPin}
    (h : attachAll mode (numbers.map fun number => { number, invert }) b = .ok pins b') :
    Wired mode invert pins ∧ pins.length = numbers.length ∧
      ∀ p ∈ pins, (b'.line p.number).last = some (p.resolve 0.0).2 := by
  have htaken := attachAll_map_attempt mode (fun number => { number, invert }) (fun _ => rfl)
    numbers b
  rw [h] at htaken
  obtain ⟨hbare, hlast⟩ := attachAll_eq_ok h
  cases htaken with
  | ok hnumbers htaken =>
      refine ⟨⟨hnumbers ▸ htaken.nodup, ?_⟩, ?_, hlast⟩
      · intro p hp
        have hmem := List.mem_map_of_mem (f := bare) hp
        rw [hbare, List.map_map] at hmem
        obtain ⟨number, -, heq⟩ := List.mem_map.mp hmem
        have hnumber : number = p.number :=
          show number = p.bare.number from congrArg OutputPin.number heq
        rw [← heq, ← hnumber]
        rfl
      · rw [← hnumbers, List.length_map]

theorem OutputPin.length_setAll {pins : List OutputPin} {values : List Float32} {b : Bench} :
    (setAll pins values b).1.length = pins.length := by
  have hbare : ((setAll pins values b).1.map bare).length = (pins.map bare).length :=
    congrArg List.length map_bare_setAll
  rwa [List.length_map, List.length_map] at hbare

/-! ## Motors -/

theorem MotorName.length_pinValues (name : MotorName) (power : Float32 → Float32 → Float32)
    (speed : Float32) : (name.pinValues power speed).length = name.pinCount := by
  cases name <;> rfl

namespace Motor

theorem numbers_set (m : Motor) (speed : Float32) (b : Bench) :
    (m.set speed b).1.numbers = m.numbers := OutputPin.map_number_setAll

/-- A motor that was opened, and maybe set since. -/
inductive Opened : Motor → Prop
  | attach {name : MotorName} {numbers : List UInt8} {b b' : Bench} {m : Motor} :
      Motor.attach name numbers b = .ok m b' → Opened m
  | set {m : Motor} (speed : Float32) (b : Bench) : Opened m → Opened (m.set speed b).1

variable {name : MotorName} {numbers : List UInt8} {b b' : Bench} {m : Motor}

theorem attach_eq_ok (h : attach name numbers b = .ok m b') :
    m.name = name ∧ m.pins.length = name.pinCount ∧ Wired name.outputMode false m.pins ∧
      ∀ p ∈ m.pins, (b'.line p.number).last = some (p.resolve 0.0).2 := by
  unfold attach at h
  by_cases hcount : numbers.length ≠ name.pinCount
  · rw [if_pos hcount] at h
    exact nomatch h
  · rw [if_neg hcount] at h
    obtain ⟨pins, b₁, hpins, h⟩ := Outcome.run_bind_eq_ok_iff.mp h
    cases h
    obtain ⟨hwired, hlength, hlast⟩ :=
      OutputPin.wired_of_attachAll (Outcome.run_adaptExcept_eq_ok_iff.mp hpins)
    exact ⟨rfl, hlength.trans (not_not.mp hcount), hwired, hlast⟩

theorem Opened.wired (h : m.Opened) :
    Wired m.name.outputMode false m.pins ∧ m.pins.length = m.name.pinCount := by
  induction h with
  | attach h =>
      obtain ⟨rfl, hlength, hwired, -⟩ := attach_eq_ok h
      exact ⟨hwired, hlength⟩
  | set speed b _ ih => exact ⟨ih.1.setAll _ _, OutputPin.length_setAll.trans ih.2⟩

end Motor

/-! ## Lights -/

theorem LightName.pinCount_le (name : LightName) (color : Color) :
    name.pinCount ≤ color.channels.length := by
  cases name
  · exact le_rfl
  · exact Nat.le_succ 2

namespace Light

theorem numbers_setColor (l : Light) (color : Color) (b : Bench) :
    (l.setColor color b).1.numbers = l.numbers := OutputPin.map_number_setAll

/-- A light that was opened, and maybe set since. -/
inductive Opened : Light → Prop
  | attach {name : LightName} {drive : Config.LightDrive} {numbers : List UInt8} {b b' : Bench}
      {l : Light} : Light.attach name drive numbers b = .ok l b' → Opened l
  | setColor {l : Light} (color : Color) (b : Bench) : Opened l → Opened (l.setColor color b).1

variable {name : LightName} {drive : Config.LightDrive} {numbers : List UInt8} {b b' : Bench}
  {l : Light}

theorem attach_eq_ok (h : attach name drive numbers b = .ok l b') :
    l.name = name ∧ l.pins.length = name.pinCount ∧
      Wired (outputMode drive) name.inverted l.pins ∧
      ∀ p ∈ l.pins, (b'.line p.number).last = some (p.resolve 0.0).2 := by
  unfold attach at h
  by_cases hcount : numbers.length ≠ name.pinCount
  · rw [if_pos hcount] at h
    exact nomatch h
  · rw [if_neg hcount] at h
    obtain ⟨pins, b₁, hpins, h⟩ := Outcome.run_bind_eq_ok_iff.mp h
    cases h
    obtain ⟨hwired, hlength, hlast⟩ :=
      OutputPin.wired_of_attachAll (Outcome.run_adaptExcept_eq_ok_iff.mp hpins)
    exact ⟨rfl, hlength.trans (not_not.mp hcount), hwired, hlast⟩

theorem Opened.wired (h : l.Opened) : (∃ drive, Wired (outputMode drive) l.name.inverted l.pins) ∧
    l.pins.length = l.name.pinCount := by
  induction h with
  | attach h =>
      obtain ⟨rfl, hlength, hwired, -⟩ := attach_eq_ok h
      exact ⟨⟨_, hwired⟩, hlength⟩
  | setColor color b _ ih =>
      obtain ⟨⟨drive, hwired⟩, hlength⟩ := ih
      exact ⟨⟨drive, hwired.setAll _ _⟩, OutputPin.length_setAll.trans hlength⟩

end Light

end Patchbay
