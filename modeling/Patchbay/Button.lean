import Patchbay.Bench.Pin
import Patchbay.Binding
/-!
# Buttons

A push button that pulls its line low while it is down.  A momentary button is on while it is down;
a toggle button changes with each press.
-/

namespace Patchbay

structure Button where
  pin : InputPin
  toggle : Bool
  /-- Whether the last poll found the button down. -/
  last : Bool := false
  value : Bool := false
deriving DecidableEq

namespace Button

def kind : String := "button"

/-- Takes a button's line. -/
def attach (pin : UInt8) (toggle : Bool) : EStateM DeviceError Bench Button := do
  let pin ← InputPin.attach { number := pin, invert := true }
  let mode := if toggle then "toggle" else "momentary"
  modify (·.note .info s!"Button on pin {pin.number} ({mode})")
  return { pin, toggle }

/-- The value after a poll that finds the button down or up. -/
def next (o : Button) (down : Bool) : Bool :=
  if down && !o.last && (!o.toggle || !o.value) then true
  else if (!o.toggle && !down && o.last) || (down && !o.last && o.value) then false
  else o.value

/-- Samples the line. -/
def poll (o : Button) (b : Bench) : Button × Bench :=
  let down := o.pin.isActive b
  let b :=
    if down = o.last then b
    else b.note .debug s!"Button on pin {o.pin.number} pressed: {down}"
  ({ o with last := down, value := o.next down }, b)

/-- One while the button is on. -/
def read (o : Button) : Float32 := if o.value then 1.0 else 0.0

def jacks : List (String × Jack Unit) := [("value", .single ())]

def find (key : String) : Except BindingError Unit := Jack.find kind jacks key

def numbers (o : Button) : List UInt8 := [o.pin.number]

end Button

end Patchbay
