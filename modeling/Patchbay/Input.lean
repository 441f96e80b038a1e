import Patchbay.Button
import Patchbay.Config.Devices
import Patchbay.Error
import Patchbay.Gamepad.Controller
/-!
# Inputs

A gamepad or a button.  Connections read an input's signals; a poll brings them up to date.
-/

namespace Patchbay

inductive Input
  | controller (c : Gamepad.Controller)
  | button (o : Button)
deriving DecidableEq

/-- What a connection may read. -/
inductive Signal
  | control (c : Gamepad.Control)
  | value
deriving DecidableEq, Repr

namespace Input

def kind : Input → String
  | controller _ => Gamepad.Controller.kind
  | button _ => Button.kind

/-- The signal of a key. -/
def find (i : Input) (key : String) : Except BindingError Signal :=
  match i with
  | controller _ => (Gamepad.Control.find key).map .control
  | button _ => (Button.find key).map fun _ => .value

/-- The present value of a signal; a signal that the input does not have is zero. -/
def read (i : Input) (s : Signal) : Float32 :=
  match i, s with
  | controller c, .control s => s.read c.snapshot
  | button o, .value => o.read
  | _, _ => 0.0

/-- Brings the signals up to date.  Only a gamepad can fail. -/
def poll (i : Input) (b : Bench) : Except RigError Unit × Input × Bench :=
  match i with
  | controller c =>
    let (result, c, b) := c.poll b
    (result.mapError .protocol, controller c, b)
  | button o =>
    let (o, b) := o.poll b
    (.ok (), button o, b)

/-- The pins that the input has. -/
def numbers : Input → List UInt8
  | controller _ => []
  | button o => o.numbers

def detach (i : Input) (b : Bench) : Bench := b.releaseAll i.numbers

/-- Builds a configured input. -/
def ofConfig : Config.InputConfig → EStateM RigError Bench Input
  | .controller id => return controller { id }
  | .button pin toggle => button <$> (Button.attach pin toggle).adaptExcept .device

end Input

end Patchbay
