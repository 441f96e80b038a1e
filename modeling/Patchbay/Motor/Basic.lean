import Patchbay.Bench.Pin
import Patchbay.Error
import Patchbay.Text.Blank
/-!
# Motors

A motor turns a speed in [-1, 1] into drives of one or two pins.
-/

namespace Patchbay

/-- A servo that turns on and on, a servo that turns to an angle, or a plain motor on an H-bridge
with a pin per direction. -/
inductive MotorName
  | fs90r
  | ms18
  | l298n
deriving DecidableEq, Repr

namespace MotorName

def pinCount : MotorName → Nat
  | fs90r | ms18 => 1
  | l298n => 2

def outputMode : MotorName → OutputMode
  | fs90r | ms18 => .servo
  | l298n => .pwm

def text : MotorName → String
  | fs90r => "fs90r"
  | ms18 => "ms18"
  | l298n => "l298n"

def label : MotorName → String
  | fs90r => "Fs90r"
  | ms18 => "Ms18"
  | l298n => "L298n"

def named : List (String × MotorName) :=
  [("fs90r", fs90r), ("fitec", fs90r), ("continuous", fs90r), ("ms18", ms18), ("micro", ms18),
    ("180", ms18), ("l298n", l298n), ("fast", l298n)]

def ofText? (s : String) : Option MotorName := named.lookup (Text.fold s)

/-- The values of a motor's pins at a speed.  The turning servo hardly moves at low values, which
its curve makes up for. -/
def pinValues (power : Float32 → Float32 → Float32) (speed : Float32) : MotorName → List Float32
  | fs90r => [power speed.abs 2.173913 * Single.signum speed * 0.3]
  | ms18 => [speed]
  | l298n => [speed, -speed]

end MotorName

structure Motor where
  name : MotorName
  pins : List OutputPin
  /-- The last speed. -/
  value : Float32 := 0.0
deriving DecidableEq

namespace Motor

/-- Takes a motor's pins, which must be as many as it needs. -/
def attach (name : MotorName) (pins : List UInt8) : EStateM RigError Bench Motor := do
  if pins.length ≠ name.pinCount then
    throw (.configuration (.motorPins name.text name.pinCount pins.length))
  let wirings := pins.map fun number => { number }
  let pins ← (OutputPin.attachAll name.outputMode wirings).adaptExcept .device
  let shown := Text.bracketed (pins.map OutputPin.describe)
  modify (·.note .info s!"Opened {name.text} motor on pins {shown}")
  return { name, pins }

/-- Turns at a speed, cut off at full speed either way. -/
def set (m : Motor) (speed : Float32) (b : Bench) : Motor × Bench :=
  let value := Single.clamp (-1.0) 1.0 speed
  let values := m.name.pinValues b.power value
  let shown := Text.bracketed (values.map Decimal.tagged)
  let b := b.note .debug s!"{m.name.text} motor set to {Decimal.plain value} ({shown})"
  let (pins, b) := OutputPin.setAll m.pins values b
  ({ m with value, pins }, b)

def numbers (m : Motor) : List UInt8 := m.pins.map OutputPin.number

def detach (m : Motor) (b : Bench) : Bench := b.releaseAll m.numbers

/-- The parts of a motor, for inspection. -/
def describe (m : Motor) : String :=
  s!"Motor \x7b name: {m.name.label}, value: {Decimal.tagged m.value} \x7d"

end Motor

end Patchbay
