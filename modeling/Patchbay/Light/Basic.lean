import Patchbay.Bench.Pin
import Patchbay.Color
import Patchbay.Config.Devices
import Patchbay.Error
/-!
# Lights

A light shows a colour through one pin per channel.
-/

namespace Patchbay

/-- An LED with three channels and a common anode, or one with red and green only. -/
inductive LightName
  | rgbLed
  | dualColorLed
deriving DecidableEq, Repr

namespace LightName

def pinCount : LightName → Nat
  | rgbLed => 3
  | dualColorLed => 2

/-- A common anode makes a channel shine when its line is low. -/
def inverted : LightName → Bool
  | rgbLed => true
  | dualColorLed => false

def text : LightName → String
  | rgbLed => "rgb led"
  | dualColorLed => "dual-color led"

def label : LightName → String
  | rgbLed => "RgbLed"
  | dualColorLed => "DualColorLed"

def ofText? (s : String) : Option LightName :=
  [rgbLed, dualColorLed].find? (·.text = Text.fold s)

end LightName

structure Light where
  name : LightName
  pins : List OutputPin
  /-- The last colour shown. -/
  color : Color := .black
deriving DecidableEq

namespace Light

def outputMode : Config.LightDrive → OutputMode
  | .digital => .level
  | .pwm => .pwm

/-- Takes a light's pins, which must be as many as it has channels. -/
def attach (name : LightName) (drive : Config.LightDrive) (pins : List UInt8) :
    EStateM RigError Bench Light := do
  if pins.length ≠ name.pinCount then
    throw (.configuration (.lightPins name.text name.pinCount pins.length))
  let wirings := pins.map fun number => { number, invert := name.inverted }
  let pins ← (OutputPin.attachAll (outputMode drive) wirings).adaptExcept .device
  let shown := Text.bracketed (pins.map OutputPin.describe)
  modify (·.note .info s!"Opened {name.text} ({drive.label}) on pins {shown}")
  return { name, pins }

/-- Shows a colour; channels without a pin are dropped. -/
def setColor (l : Light) (color : Color) (b : Bench) : Light × Bench :=
  let b := b.note .debug s!"{l.name.text} set to {color.text}"
  let (pins, b) := OutputPin.setAll l.pins color.channels b
  ({ l with color, pins }, b)

def numbers (l : Light) : List UInt8 := l.pins.map OutputPin.number

def detach (l : Light) (b : Bench) : Bench := b.releaseAll l.numbers

/-- The parts of a light, for inspection. -/
def describe (l : Light) : String :=
  s!"Light \x7b name: {l.name.label}, color: {l.color.describe} \x7d"

end Light

end Patchbay
