import Patchbay.Proofs.Output.Opening
import Patchbay.Proofs.Output.Stepping
import Patchbay.Proofs.Output.Writing
import Patchbay.Proofs.Single.Special

/-! # Steps after a change

A step of a solid light or a constant motor drives the pins for the values that its parameters hold
if a parameter was given another value since it was last looked at, and else does nothing.  Values
that differ in the sign of zero only drive the pins alike. -/

namespace Patchbay

open Single (Same)

/-! ## Drives that are alike -/

/-- The same drive, but for the sign of a share of zero. -/
def Drive.Alike : Drive → Drive → Prop
  | .duty share frequency, .duty share' frequency' =>
    (share = share' ∨ share == share') ∧ frequency = frequency'
  | d, d' => d = d'

theorem Drive.Alike.refl (d : Drive) : d.Alike d := by
  cases d with
  | duty share frequency => exact ⟨.inl rfl, rfl⟩
  | level | pulse => rfl

/-- A pin does not tell apart the signs of zero. -/
theorem OutputPin.resolve_alike (p : OutputPin) {v v' : Float32} (h : Same v v') :
    (p.resolve v).2.Alike (p.resolve v').2 := by
  have hclamp := h.clamp 0.0 1.0
  unfold resolve
  cases p.mode with
  | level =>
      simp only [hclamp.le_right_iff 0.5]
      exact .refl _
  | pwm =>
      have hvalue := Same.ite (Iff.refl (p.wiring.invert = true))
        (Same.of_eq (hclamp.sub_eq Single.view_one)) hclamp
      exact ⟨(((hvalue.mul (.refl _)).trunc).div _).eq_or_beq, rfl⟩
  | servo =>
      have hvalue := Same.ite (Iff.refl (p.wiring.invert = true)) h.neg h
      dsimp only
      rw [((hvalue.mul (.refl 1000.0)).trunc).add_eq (y := 1500.0) rfl]
      exact .refl _

/-- A motor's pins do not either, as long as no power of zero is anything else than zero. -/
theorem MotorName.pinValues_same (name : MotorName) {power : Float32 → Float32 → Float32}
    (hpower : ∀ y, 0.0 < y → power 0.0 y = 0.0) {v v' : Float32} (h : Same v v') :
    List.Forall₂ Same (name.pinValues power v) (name.pinValues power v') := by
  cases name with
  | fs90r =>
      refine .cons (Same.mul ?_ (.refl 0.3)) .nil
      rcases h with h | ⟨⟨s, hv⟩, ⟨t, hv'⟩⟩
      · rw [← Single.packed_view v, h, Single.packed_view]
        exact .refl _
      · -- What is left of the curve is zero times a sign.
        have hcurve {v : Float32} {s : Float.Model.UnpackedFloat.Sign}
            (hv : Single.view v = .zero s) :
            power v.abs 2.173913 * Single.signum v = Single.packed (.zero s) := by
          have hv : v = Single.packed (.zero s) := by rw [← hv, Single.packed_view]
          have habs : v.abs = 0.0 := by
            rw [hv]
            cases s <;> rfl
          rw [habs, hpower _ (by decide), hv]
          cases s <;> rfl
        rw [hcurve hv, hcurve hv']
        exact .of_packed (.inr ⟨⟨s, rfl⟩, ⟨t, rfl⟩⟩)
  | ms18 => exact .cons h .nil
  | l298n => exact .cons h (.cons h.neg .nil)

/-! ## Parameters -/

namespace Param

variable {p : Param} {v : Float32}

theorem dirty_set : (p.set v).dirty = true ↔ p.dirty = true ∨ ¬ p.value == v := by
  unfold set
  by_cases h : p.value == v <;> simp [h]

theorem set_eq_of_not_dirty (h : ¬ (p.set v).dirty = true) : p.set v = p := by
  unfold set at h ⊢
  split
  · rfl
  next hne =>
    rw [if_neg hne] at h
    exact absurd rfl h

theorem same_value_set : Same (p.set v).value v := by
  unfold set
  split
  next h => exact .of_beq h
  next => exact .refl v

end Param

namespace Output

/-- The parameters of a solid light and of a constant motor. -/
def param? : Output → Target → Option Param
  | solid o, .channel .r => some o.color.r
  | solid o, .channel .g => some o.color.g
  | solid o, .channel .b => some o.color.b
  | solid o, .brightness => some o.brightness
  | constant o, .value => some o.value
  | _, _ => none

/-- The values that the parameters hold. -/
def values (o : Output) (t : Target) : Float32 :=
  match o.param? t with
  | some p => p.value
  | none => 0.0

theorem values_eq {o : Output} {t : Target} {p : Param} (hp : o.param? t = some p) :
    o.values t = p.value := by
  unfold values
  rw [hp]

/-- Some parameter changed since it was last looked at. -/
def Dirty (o : Output) : Prop := ∃ t p, o.param? t = some p ∧ p.dirty = true

/-- A write would give some parameter another value. -/
def Differs (o : Output) (t : Target) (v : Float32) : Prop :=
  ∃ u ∈ t.parameters, ∃ p, o.param? u = some p ∧ ¬ p.value == v

/-- A solid light or a constant motor. -/
def Holds : Output → Prop
  | solid _ | constant _ => True
  | _ => False

variable {o : Output}

theorem param?_write (h : o.Holds) (t : Target) (v : Float32) (u : Target) :
    (o.write t v).param? u = (o.param? u).map fun p => if u ∈ t.parameters then p.set v else p := by
  cases o with
  | solid o =>
      cases t with
      | channel c =>
          cases u with
          | channel d => cases c <;> cases d <;> rfl
          | _ => cases c <;> rfl
      | _ =>
          cases u with
          | channel d => cases d <;> rfl
          | _ => rfl
  | constant o => cases t <;> cases u <;> rfl
  | _ => exact h.elim

theorem dirty_write_iff (h : o.Holds) {t : Target} {v : Float32} :
    (o.write t v).Dirty ↔ o.Dirty ∨ o.Differs t v := by
  constructor
  · rintro ⟨u, p', hp', hdirty⟩
    rw [param?_write h, Option.map_eq_some_iff] at hp'
    obtain ⟨p, hp, rfl⟩ := hp'
    by_cases hu : u ∈ t.parameters
    · rw [if_pos hu, Param.dirty_set] at hdirty
      exact hdirty.imp (fun hdirty => ⟨u, p, hp, hdirty⟩) fun hne => ⟨u, hu, p, hp, hne⟩
    · rw [if_neg hu] at hdirty
      exact .inl ⟨u, p, hp, hdirty⟩
  · have hwrite {u : Target} {p : Param} (hp : o.param? u = some p)
        (hdirty : p.dirty = true ∨ u ∈ t.parameters ∧ ¬ p.value == v) : (o.write t v).Dirty := by
      refine ⟨u, _, (param?_write h t v u).trans (congrArg _ hp), ?_⟩
      dsimp only
      split
      · exact Param.dirty_set.mpr (hdirty.imp_right And.right)
      next hu => exact hdirty.resolve_right fun hne => hu hne.1
    rintro (⟨u, p, hp, hdirty⟩ | ⟨u, hu, p, hp, hne⟩)
    · exact hwrite hp (.inl hdirty)
    · exact hwrite hp (.inr ⟨hu, hne⟩)

theorem values_write_of_not_dirty (h : o.Holds) {t : Target} {v : Float32}
    (hd : ¬ (o.write t v).Dirty) : (o.write t v).values = o.values := by
  funext u
  have hu := param?_write h t v u
  unfold values
  cases hp : o.param? u with
  | none =>
      rw [hp] at hu
      rw [hu]
      rfl
  | some p =>
      rw [hp] at hu
      have hclean : ¬ (if u ∈ t.parameters then p.set v else p).dirty = true :=
        fun hdirty => hd ⟨u, _, hu, hdirty⟩
      rw [hu]
      dsimp only [Option.map_some]
      split at hclean
      next hm => rw [if_pos hm, Param.set_eq_of_not_dirty hclean]
      next hm => rw [if_neg hm]

/-! ## Pins -/

def pins : Output → List OutputPin
  | solid o => o.light.pins
  | constant o => o.motor.pins
  | _ => []

/-- The values of the pins for values of the parameters. -/
def levels (o : Output) (power : Float32 → Float32 → Float32) (values : Target → Float32) :
    List Float32 :=
  match o with
  | solid _ =>
    let color : Color := ⟨values (.channel .r), values (.channel .g), values (.channel .b)⟩
    (color.scale (values .brightness)).channels
  | constant o => o.motor.name.pinValues power (Single.clamp (-1.0) 1.0 (values .value))
  | _ => []

/-- Drives the pins for values of the parameters, whatever the output holds itself. -/
def drive (o : Output) (values : Target → Float32) (b : Bench) : Output × Bench :=
  match o with
  | solid o =>
    let color : Color := ⟨values (.channel .r), values (.channel .g), values (.channel .b)⟩
    let (light, b) := o.light.setColor (color.scale (values .brightness)) b
    (solid { o with light }, b)
  | constant o =>
    let (motor, b) := o.motor.set (values .value) b
    (constant { o with motor }, b)
  | o => (o, b)

theorem exists_drive_eq (h : o.Holds) (values : Target → Float32) (b : Bench) :
    ∃ level text,
      (o.drive values b).2 =
        (OutputPin.setAll o.pins (o.levels b.power values) (b.note level text)).2 ∧
      (o.drive values b).1.pins =
        (OutputPin.setAll o.pins (o.levels b.power values) (b.note level text)).1 := by
  cases o with
  | solid o => exact ⟨_, _, rfl, rfl⟩
  | constant o => exact ⟨_, _, rfl, rfl⟩
  | _ => exact h.elim

theorem levels_same (h : o.Holds) {power : Float32 → Float32 → Float32}
    (hpower : ∀ y, 0.0 < y → power 0.0 y = 0.0) {values values' : Target → Float32}
    (hsame : ∀ t p, o.param? t = some p → Same (values t) (values' t)) :
    List.Forall₂ Same (o.levels power values) (o.levels power values') := by
  cases o with
  | solid o =>
      have hbrightness := hsame .brightness _ rfl
      have hr := (hsame (.channel .r) _ rfl).mul hbrightness
      have hg := (hsame (.channel .g) _ rfl).mul hbrightness
      have hb := (hsame (.channel .b) _ rfl).mul hbrightness
      exact .cons hr (.cons hg (.cons hb .nil))
  | constant o => exact o.motor.name.pinValues_same hpower ((hsame .value _ rfl).clamp _ _)
  | _ => exact h.elim

/-! ## The same pins -/

/-- An output that still has the same pins, connected as they were, and uses them as before. -/
structure Like (o o' : Output) : Prop where
  holds : o'.Holds
  bare : o'.pins.map OutputPin.bare = o.pins.map OutputPin.bare
  levels : o'.levels = o.levels

namespace Like

variable {o' : Output} {values : Target → Float32} {b : Bench}

theorem refl (h : o.Holds) : o.Like o := ⟨h, rfl, rfl⟩

theorem trans {o'' : Output} (h : o.Like o') (h' : o'.Like o'') : o.Like o'' :=
  ⟨h'.holds, h'.bare.trans h.bare, h'.levels.trans h.levels⟩

theorem write (h : o.Like o') (t : Target) (v : Float32) : o.Like (o'.write t v) := by
  have hholds := h.holds
  cases o' with
  | solid o' =>
      have hlight : (o'.write t v).light = o'.light := by cases t <;> rfl
      refine ⟨trivial, ?_, h.levels⟩
      change (o'.write t v).light.pins.map _ = _
      rw [hlight]
      exact h.bare
  | constant o' =>
      have hmotor : (o'.write t v).motor = o'.motor := by cases t <;> rfl
      refine ⟨trivial, ?_, ?_⟩
      · change (o'.write t v).motor.pins.map _ = _
        rw [hmotor]
        exact h.bare
      · rw [← h.levels]
        funext power values
        change (o'.write t v).motor.name.pinValues power _ = _
        rw [hmotor]
        rfl
  | _ => exact hholds.elim

theorem drive (h : o.Like o') (values : Target → Float32) (b : Bench) :
    o.Like (o'.drive values b).1 := by
  obtain ⟨level, text, -, hpins⟩ := exists_drive_eq h.holds values b
  have hbare : (o'.drive values b).1.pins.map OutputPin.bare = o.pins.map OutputPin.bare := by
    rw [hpins, OutputPin.map_bare_setAll]
    exact h.bare
  have hholds := h.holds
  cases o' with
  | solid o' | constant o' => exact ⟨trivial, hbare, h.levels⟩
  | _ => exact hholds.elim

/-- What a drive of the pins does to the line of a pin. -/
theorem line_drive (h : o.Like o') (hnodup : (o.pins.map OutputPin.number).Nodup) {p : OutputPin}
    {v : Float32} (hp : (p, v) ∈ o.pins.zip (o.levels b.power values)) :
    (o'.drive values b).2.line p.number = (b.write p.number (p.resolve v).2).line p.number := by
  obtain ⟨level, text, hbench, -⟩ := exists_drive_eq h.holds values b
  rw [hbench, h.levels, ← OutputPin.setAll_map_bare, h.bare, OutputPin.setAll_map_bare,
    OutputPin.line_setAll_eq_write hnodup hp]
  rfl

end Like

/-! ## Steps -/

theorem solid_dirty_iff {o : SolidLight} :
    (solid o).Dirty ↔ (o.color.dirty || o.brightness.dirty) = true := by
  simp only [ColorParam.dirty, Bool.or_eq_true]
  constructor
  · rintro ⟨t, p, hp, hdirty⟩
    cases t with
    | channel c =>
        cases c with
        | r =>
            obtain rfl := Option.some.inj hp
            exact .inl (.inl (.inl hdirty))
        | g =>
            obtain rfl := Option.some.inj hp
            exact .inl (.inl (.inr hdirty))
        | b =>
            obtain rfl := Option.some.inj hp
            exact .inl (.inr hdirty)
    | brightness =>
        obtain rfl := Option.some.inj hp
        exact .inr hdirty
    | _ => exact nomatch hp
  · rintro (((hdirty | hdirty) | hdirty) | hdirty)
    · exact ⟨.channel .r, _, rfl, hdirty⟩
    · exact ⟨.channel .g, _, rfl, hdirty⟩
    · exact ⟨.channel .b, _, rfl, hdirty⟩
    · exact ⟨.brightness, _, rfl, hdirty⟩

theorem constant_dirty_iff {o : ConstantMotor} : (constant o).Dirty ↔ o.value.dirty = true := by
  constructor
  · rintro ⟨t, p, hp, hdirty⟩
    cases t with
    | value =>
        obtain rfl := Option.some.inj hp
        exact hdirty
    | _ => exact nomatch hp
  · exact fun hdirty => ⟨.value, _, rfl, hdirty⟩

/-- A step of an output that has changed drives its pins, and all parameters are looked at. -/
theorem step_of_dirty (h : o.Holds) (hd : o.Dirty) (b : Bench) :
    (o.step b).2 = (o.drive o.values b).2 ∧ (o.drive o.values b).1.Like (o.step b).1 ∧
      ∀ t, (o.step b).1.param? t = (o.param? t).map Param.clean := by
  cases o with
  | solid o =>
      have hstep : o.step b =
          let shown := o.light.setColor (o.color.value.scale o.brightness.value) b
          (⟨shown.1, o.color.clean, o.brightness.clean⟩, shown.2) :=
        if_pos (solid_dirty_iff.mp hd)
      simp only [step, hstep]
      refine ⟨rfl, ⟨trivial, rfl, rfl⟩, fun t => ?_⟩
      cases t with
      | channel c => cases c <;> rfl
      | _ => rfl
  | constant o =>
      have hstep : o.step b =
          let turned := o.motor.set o.value.value b
          (⟨turned.1, o.value.clean⟩, turned.2) :=
        if_pos (constant_dirty_iff.mp hd)
      simp only [step, hstep]
      refine ⟨rfl, ⟨trivial, rfl, rfl⟩, fun t => ?_⟩
      cases t <;> rfl
  | _ => exact h.elim

theorem step_of_not_dirty (h : o.Holds) (hd : ¬ o.Dirty) (b : Bench) : o.step b = (o, b) := by
  cases o with
  | solid o =>
      have hstep : o.step b = (o, b) := if_neg (mt solid_dirty_iff.mpr hd)
      simp only [step, hstep]
  | constant o =>
      have hstep : o.step b = (o, b) := if_neg (mt constant_dirty_iff.mpr hd)
      simp only [step, hstep]
  | _ => exact h.elim

theorem param?_step (h : o.Holds) (b : Bench) (t : Target) :
    (o.step b).1.param? t = (o.param? t).map Param.clean := by
  by_cases hd : o.Dirty
  · exact (step_of_dirty h hd b).2.2 t
  · rw [step_of_not_dirty h hd]
    cases hp : o.param? t with
    | none => rfl
    | some p =>
        have hclean : p.dirty = false := Bool.eq_false_iff.mpr fun hdirty => hd ⟨t, p, hp, hdirty⟩
        rw [Option.map_some, Param.clean, ← hclean]

theorem values_step (h : o.Holds) (b : Bench) : (o.step b).1.values = o.values := by
  funext t
  unfold values
  rw [param?_step h]
  cases o.param? t <;> rfl

theorem not_dirty_step (h : o.Holds) (b : Bench) : ¬ (o.step b).1.Dirty := by
  rintro ⟨t, p', hp', hdirty⟩
  rw [param?_step h, Option.map_eq_some_iff] at hp'
  obtain ⟨p, -, rfl⟩ := hp'
  exact Bool.false_ne_true hdirty

theorem power_drive (h : o.Holds) (values : Target → Float32) (b : Bench) :
    (o.drive values b).2.power = b.power := by
  obtain ⟨level, text, hbench, -⟩ := exists_drive_eq h values b
  rw [hbench, OutputPin.power_setAll]
  rfl

theorem power_step (h : o.Holds) (b : Bench) : (o.step b).2.power = b.power := by
  by_cases hd : o.Dirty
  · rw [(step_of_dirty h hd b).1, power_drive h]
  · rw [step_of_not_dirty h hd]

theorem Like.step {o' : Output} (h : o.Like o') (b : Bench) : o.Like (o'.step b).1 := by
  by_cases hd : o'.Dirty
  · exact (h.drive o'.values b).trans (step_of_dirty h.holds hd b).2.1
  · rw [step_of_not_dirty h.holds hd]
    exact h

end Output

end Patchbay
