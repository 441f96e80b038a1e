import Patchbay.Decimal.Text
import Patchbay.FileTree
/-!
# Drives

What an output line is told to do, and what can go wrong at the bench.
-/

namespace Patchbay

/-- A steady level, a share of each period to be high, or a pulse of so many microseconds. -/
inductive Drive
  | level (high : Bool)
  | duty (share : Float32) (frequency : UInt32)
  | pulse (micros : Nat)
deriving DecidableEq

def Drive.text : Drive → String
  | level true => "high"
  | level false => "low"
  | duty share frequency => Decimal.thousandths share ++ s!"@{frequency}Hz"
  | pulse micros => s!"{micros}us"

inductive DeviceError
  | gpioInit (reason : String)
  | pinOutOfRange (pin : UInt8)
  | pinBusy (pin : UInt8)
  | pinWrite (pin : UInt8) (reason : String)
  | inputPinWrite (pin : UInt8)
  | unopened (path : String) (cause : FileError)
deriving DecidableEq, Repr

namespace DeviceError

def message : DeviceError → String
  | gpioInit reason => s!"Failed to initialize GPIO: {reason}"
  | pinOutOfRange pin => s!"Pin is out of range 0-27: {pin}"
  | pinBusy pin => s!"Pin {pin} is already in use"
  | pinWrite pin reason => s!"Failed to drive pin {pin}: {reason}"
  | inputPinWrite pin => s!"Cannot set input pin {pin}"
  | unopened path cause => s!"Failed to open event device {path}: {cause.message}"

end DeviceError

/-- What can be read from the event device of an id. -/
def FileTree.readDevice (t : FileTree) (id : String) : Except DeviceError String :=
  let path := "/dev/input/" ++ id
  (t.read path).mapError (.unopened path)

end Patchbay
