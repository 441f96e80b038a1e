import Patchbay.Bench.Drive
import Patchbay.Binding
import Patchbay.Config.Shape
import Patchbay.Expr.Error
import Patchbay.Gamepad.Event
/-!
# Faults of a rig

The faults of all parts together.  A rig with a fault in its configuration, a binding or a function
is not built at all; a fault of the gamepad's records or of a device stops a running rig.
-/

namespace Patchbay

open Text (between)

/-- Faults of a configuration. -/
inductive ConfigError
  | custom (text : String)
  | notToml
  | decode (cause : Config.DecodeError)
  | unreadable (path : String) (cause : FileError)
  | unknownLight (name : String)
  | unknownColor (name : String)
  | unknownMotor (name : String)
  | lightPins (name : String) (needed given : Nat)
  | motorPins (name : String) (needed given : Nat)
  | periodNotPositive (device : String)
  | outsideUnit (device key : String) (value : Float32)
  | notAString (connection : Nat) (key found : String)
  | noInput
  | tooManyInputs (most given : Nat)
  | noOutput
  | noFunction
  | malformedBinding (binding : String)
  | unknownInput (name : String)
  | unknownOutput (name : String)
  | duplicateInput (name : String)
  | duplicateOutput (name : String)
  /-- A fault in the entry at a key of the configuration. -/
  | entry (key : String) (cause : ConfigError)
deriving DecidableEq

def ConfigError.message : ConfigError → String
  | custom text => text
  | notToml => "TOML syntax"
  | decode cause => cause.message
  | unreadable path cause => s!"Failed to read {path}: {cause.message}"
  | unknownLight name => s!"Unrecognized LED name: {name}"
  | unknownColor name => s!"color does not exist: {name}"
  | unknownMotor name => s!"Unrecognized motor name: {name}"
  | lightPins name needed given => s!"{name} requires {needed} pins, got {given}"
  | motorPins name needed given => s!"{name} motor requires {needed} pin(s), got {given}"
  | periodNotPositive device => s!"{device} \"period\" must be positive"
  | outsideUnit device key value =>
    s!"{device} {between key} must be within [0.0, 1.0], got {Decimal.plain value}"
  | notAString connection key found =>
    s!"connection {connection}: {between key} must be a string, got {found}"
  | noInput => "a connection needs at least one input"
  | tooManyInputs most given => s!"a connection takes at most {most} inputs, got {given}"
  | noOutput => "a connection needs exactly one output"
  | noFunction => "a connection with several inputs needs a function"
  | malformedBinding binding => s!"binding {between binding} must have the form alias.key"
  | unknownInput name => s!"unknown input {between name}"
  | unknownOutput name => s!"unknown output {between name}"
  | duplicateInput name => s!"duplicate input {between name}"
  | duplicateOutput name => s!"duplicate output {between name}"
  | entry key cause => key ++ ": " ++ cause.message

inductive RigError
  | configuration (cause : ConfigError)
  | binding (cause : BindingError)
  | compile (cause : CompileError)
  | protocol (cause : Gamepad.ProtocolError)
  | device (cause : DeviceError)
  /-- A fault met while building the entry at a key of the configuration. -/
  | keyed (key : String) (cause : RigError)
deriving DecidableEq

namespace RigError

def message : RigError → String
  | configuration cause => "Configuration error: " ++ cause.message
  | binding cause => "Binding error: " ++ cause.message
  | compile cause => "Compile error: " ++ cause.message
  | protocol cause => "Protocol error: " ++ cause.message
  | device cause => "Device I/O error: " ++ cause.message
  | keyed key cause => key ++ ": " ++ cause.message

/-- The fault, told with the key of the entry that it comes from. -/
def under (key : String) : RigError → RigError
  | configuration cause => configuration (.entry key cause)
  | cause => keyed key cause

/-- Whether a fault can only come up while a rig is being built. -/
def isBuildTime : RigError → Bool
  | configuration _ | binding _ | compile _ | keyed .. => true
  | protocol _ | device _ => false

end RigError

end Patchbay
