import Patchbay.Light.Modes
import Patchbay.Motor.Modes
/-!
# Outputs

A light or a motor in one of its modes.  Connections write to an output's targets; a step brings its
pins up to date.
-/

namespace Patchbay

inductive Output
  | solid (o : SolidLight)
  | cycling (o : CyclingLight)
  | flashing (o : FlashingLight)
  | constant (o : ConstantMotor)
  | oscillating (o : OscillatingMotor)
  | dancing (o : DancingMotor)
deriving DecidableEq

namespace Output

def kind : Output → String
  | solid _ => "solid light"
  | cycling _ => "light cycle"
  | flashing _ => "flashing light"
  | constant _ => "constant motor"
  | oscillating _ => "oscillating motor"
  | dancing _ => "dancing motor"

def jacks : Output → List (String × Jack Target)
  | solid _ => SolidLight.jacks
  | cycling _ => CyclingLight.jacks
  | flashing _ => FlashingLight.jacks
  | constant _ => ConstantMotor.jacks
  | oscillating _ => OscillatingMotor.jacks
  | dancing _ => DancingMotor.jacks

/-- The target of a key. -/
def find (o : Output) (key : String) : Except BindingError Target := Jack.find o.kind o.jacks key

/-- Writes a value; a target that the output does not have takes nothing. -/
def write (o : Output) (t : Target) (v : Float32) : Output :=
  match o with
  | solid o => solid (o.write t v)
  | cycling o => cycling (o.write t v)
  | flashing o => flashing (o.write t v)
  | constant o => constant (o.write t v)
  | oscillating o => oscillating (o.write t v)
  | dancing o => dancing (o.write t v)

/-- Moves on and drives the pins. -/
def step (o : Output) (b : Bench) : Output × Bench :=
  match o with
  | solid o => let (o, b) := o.step b; (solid o, b)
  | cycling o => let (o, b) := o.step b; (cycling o, b)
  | flashing o => let (o, b) := o.step b; (flashing o, b)
  | constant o => let (o, b) := o.step b; (constant o, b)
  | oscillating o => let (o, b) := o.step b; (oscillating o, b)
  | dancing o => let (o, b) := o.step b; (dancing o, b)

/-- The pins that the output has. -/
def numbers : Output → List UInt8
  | solid o => o.light.numbers
  | cycling o => o.light.numbers
  | flashing o => o.light.numbers
  | constant o => o.motor.numbers
  | oscillating o => o.motor.numbers
  | dancing o => o.motor.numbers

def detach (o : Output) (b : Bench) : Bench := b.releaseAll o.numbers

/-! ## Building -/

open Config

/-- Builds a light in its configured mode. -/
def ofLight (c : LightConfig) : EStateM RigError Bench Output := do
  let some name := LightName.ofText? c.name | throw (.configuration (.unknownLight c.name))
  let some color := Color.ofName? c.color | throw (.configuration (.unknownColor c.color))
  if c.period.value ≤ 0.0 then throw (.configuration (.periodNotPositive "light"))
  if c.mode ≠ .cycle ∧ name = .dualColorLed ∧ color.b > 0.0 then
    modify (·.note .warn
      s!"Color {c.color} will not be represented properly on the {name.text}")
  let light ← Light.attach name c.drive c.pins
  let now := (← get).clock
  return match c.mode with
    | .solid => solid (.make light color c.brightness)
    | .cycle => cycling (.make light c.brightness c.period.value now)
    | .flash => flashing (.make light color c.brightness c.period.value now)

/-- A fault unless a number is in [0, 1]. -/
def requireUnit (key : String) (v : Float32) : EStateM RigError Bench Unit :=
  if 0.0 ≤ v ∧ v ≤ 1.0 then return () else throw (.configuration (.outsideUnit "motor" key v))

/-- Builds a motor in its configured mode. -/
def ofMotor (c : MotorConfig) : EStateM RigError Bench Output := do
  let some name := MotorName.ofText? c.name | throw (.configuration (.unknownMotor c.name))
  if c.period.value ≤ 0.0 then throw (.configuration (.periodNotPositive "motor"))
  match c.mode with
  | .constant =>
    requireUnit "value" c.value
    return constant (.make (← Motor.attach name c.pinList) c.value)
  | .oscillate =>
    requireUnit "max" c.max
    let motor ← Motor.attach name c.pinList
    return oscillating (.make motor c.max c.period.value (← get).clock)
  | .dance =>
    let motor ← Motor.attach name c.pinList
    return dancing (.make motor c.period.value (← get).clock)

/-- Builds a configured output. -/
def ofConfig : OutputConfig → EStateM RigError Bench Output
  | .light c => ofLight c
  | .motor c => ofMotor c

end Output

end Patchbay
