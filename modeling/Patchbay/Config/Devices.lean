import Patchbay.Config.Seconds
/-!
# Configured devices

What a configuration says about one input or output.
-/

namespace Patchbay.Config

inductive InputConfig
  | controller (id : String)
  | button (pin : UInt8) (toggle : Bool)
deriving DecidableEq, Repr

inductive LightMode
  | solid
  | cycle
  | flash
deriving DecidableEq, Repr

/-- Whether a light is switched or dimmed. -/
inductive LightDrive
  | digital
  | pwm
deriving DecidableEq, Repr

def LightDrive.label : LightDrive → String
  | digital => "Digital"
  | pwm => "Pwm"

structure LightConfig where
  name : String
  pins : List UInt8
  drive : LightDrive := .pwm
  mode : LightMode
  color : String := "white"
  brightness : Float32 := 1.0
  period : Seconds := ⟨1.0⟩
deriving DecidableEq

inductive MotorMode
  | constant
  | oscillate
  | dance
deriving DecidableEq, Repr

/-- A motor on one pin has `pin`, a motor on two has `pins`. -/
structure MotorConfig where
  name : String
  pin : Option UInt8 := none
  pins : Option (List UInt8) := none
  mode : MotorMode := .constant
  value : Float32 := 1.0
  max : Float32 := 1.0
  period : Seconds := ⟨1.0⟩
deriving DecidableEq

/-- All pins, in order. -/
def MotorConfig.pinList (c : MotorConfig) : List UInt8 := c.pin.toList ++ c.pins.getD []

inductive OutputConfig
  | light (config : LightConfig)
  | motor (config : MotorConfig)
deriving DecidableEq

end Patchbay.Config
