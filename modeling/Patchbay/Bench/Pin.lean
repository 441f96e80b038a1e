import Patchbay.Bench.Basic
/-!
# Pins

A pin owns a line of the bench.  An output pin turns the values it is set to into drives of its
line; an input pin samples the level of its line.
-/

namespace Patchbay

/-- Pulse-width modulation in steps of `1 / range`. -/
structure Pwm where
  range : UInt16 := 255
  frequency : UInt32 := 1000
deriving DecidableEq, Repr

/-- How a pin is connected. -/
structure Wiring where
  number : UInt8
  invert : Bool := false
  pwm : Pwm := {}
deriving DecidableEq, Repr

inductive OutputMode
  | level
  | pwm
  | servo
deriving DecidableEq, Repr

/-- The parts of a pin, for inspection. -/
def Wiring.describe (w : Wiring) (mode : String) (value : Float32) : String :=
  s!"Pin \x7b config: PinConfig \x7b pin: {w.number}, mode: {mode}, invert: {w.invert}, "
    ++ s!"pwm: PwmConfig \x7b range: {w.pwm.range}, frequency: {w.pwm.frequency} \x7d \x7d, "
    ++ s!"value: {Decimal.tagged value} \x7d"

/-! ## Output pins -/

structure OutputPin where
  wiring : Wiring
  mode : OutputMode
  value : Float32 := 0.0
deriving DecidableEq

namespace OutputPin

def number (p : OutputPin) : UInt8 := p.wiring.number

/-- What a value of `v` becomes: the value that the pin then has, and the drive of its line. -/
def resolve (p : OutputPin) (v : Float32) : Float32 × Drive :=
  match p.mode with
  | .level =>
    let v := Single.clamp 0.0 1.0 v
    (v, .level (decide (0.5 ≤ v) != p.wiring.invert))
  | .pwm =>
    let v := Single.clamp 0.0 1.0 v
    let v := if p.wiring.invert then 1.0 - v else v
    let range := Single.ofInt p.wiring.pwm.range.toNat
    (v, .duty (Single.trunc (v * range) / range) p.wiring.pwm.frequency)
  | .servo =>
    let v := if p.wiring.invert then -v else v
    let micros := Single.trunc (v * 1000.0) + 1500.0
    (v, .pulse (Single.larger micros 0.0).toUInt64.toNat)

/-- Drives the line for a value. -/
def set (p : OutputPin) (v : Float32) (b : Bench) : OutputPin × Bench :=
  let (value, drive) := p.resolve v
  ({ p with value }, b.write p.number drive)

/-- Takes the line and sets it to zero. -/
def attach (mode : OutputMode) (wiring : Wiring) : EStateM DeviceError Bench OutputPin := do
  Bench.claim wiring.number
  modifyGet (set { wiring, mode } 0.0)

/-- Takes several lines, or none. -/
def attachAll (mode : OutputMode) : List Wiring → EStateM DeviceError Bench (List OutputPin)
  | [], b => .ok [] b
  | wiring :: rest, b =>
    match attach mode wiring b with
    | .error cause b => .error cause b
    | .ok pin b =>
      match attachAll mode rest b with
      | .error cause b => .error cause (b.release pin.number)
      | .ok pins b => .ok (pin :: pins) b

/-- Sets each pin to its value. -/
def setAll : List OutputPin → List Float32 → Bench → List OutputPin × Bench
  | pin :: pins, v :: vs, b =>
    let (pin, b) := pin.set v b
    let (pins, b) := setAll pins vs b
    (pin :: pins, b)
  | pins, _, b => (pins, b)

def describe (p : OutputPin) : String :=
  let mode := match p.mode with
    | .level => "Out"
    | .pwm => "Pwm"
    | .servo => "Servo"
  p.wiring.describe mode p.value

end OutputPin

/-! ## Input pins -/

structure InputPin where
  wiring : Wiring
deriving DecidableEq

namespace InputPin

def number (p : InputPin) : UInt8 := p.wiring.number

def attach (wiring : Wiring) : EStateM DeviceError Bench InputPin := do
  Bench.claim wiring.number
  return ⟨wiring⟩

/-- Whether the line is at its active level. -/
def isActive (p : InputPin) (b : Bench) : Bool := (b.line p.number).inputHigh != p.wiring.invert

/-- One for the active level, else zero. -/
def get (p : InputPin) (b : Bench) : Float32 := if p.isActive b then 1.0 else 0.0

def describe (p : InputPin) : String := p.wiring.describe "In" 0.0

end InputPin

/-! ## Pins of either kind -/

inductive Pin
  | input (pin : InputPin)
  | output (pin : OutputPin)
deriving DecidableEq

namespace Pin

def number : Pin → UInt8
  | input p => p.number
  | output p => p.number

/-- Attaches an output pin of a mode, or an input pin. -/
def attach (mode : Option OutputMode) (wiring : Wiring) : EStateM DeviceError Bench Pin :=
  match mode with
  | some mode => output <$> OutputPin.attach mode wiring
  | none => input <$> InputPin.attach wiring

/-- Sets an output pin; an input pin cannot be set. -/
def set (p : Pin) (v : Float32) : EStateM DeviceError Bench Pin :=
  match p with
  | output p => fun b =>
    let (p, b) := p.set v b
    .ok (output p) b
  | input p => throw (.inputPinWrite p.number)

/-- The sampled level of an input pin, the last value of an output pin. -/
def get (p : Pin) (b : Bench) : Float32 :=
  match p with
  | input p => p.get b
  | output p => p.value

def detach (p : Pin) (b : Bench) : Bench := b.release p.number

def describe : Pin → String
  | input p => p.describe
  | output p => p.describe

end Pin

end Patchbay
