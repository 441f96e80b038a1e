import Patchbay.Binding
import Patchbay.Gamepad.Snapshot
import Patchbay.Single.Basic
/-!
# Gamepad controls

The values that can be read off a gamepad, their keys, and their ranges: a button or a direction of
the pad is 0 or 1, a trigger is in [0, 1], a stick or the difference of the triggers in [-1, 1].
-/

namespace Patchbay.Gamepad

/-- A part of a stick or of the pad.  A direction reads its own half of an axis only. -/
inductive Component
  | x
  | y
  | left
  | up
  | right
  | down
deriving DecidableEq, Repr

inductive Stick
  | left
  | right
deriving DecidableEq, Repr

inductive Control
  | button (b : Button)
  | leftTrigger
  | rightTrigger
  | bothTriggers
  | stick (s : Stick) (c : Component)
  | pad (c : Component)
deriving DecidableEq, Repr

/-- Scales a signed axis by its largest value. -/
def normalizeSigned (v : Int16) : Float32 := Single.ofInt v.toInt / Single.ofInt 32767

/-- Scales an unsigned axis by its largest value. -/
def normalizeUnsigned (v : UInt16) : Float32 := Single.ofInt v.toNat / Single.ofInt 65535

/-- One part of a stick at `(x, y)`. -/
def Component.ofStick (x y : Int16) : Component → Int16
  | .x => x
  | .y => y
  | left => opposite (min x 0)
  | up => max y 0
  | right => max x 0
  | down => opposite (min y 0)

def level (held : Bool) : Float32 := if held then 1.0 else 0.0

/-- One part of the pad. -/
def Component.ofPad (p : Pad) : Component → Float32
  | x => level p.right - level p.left
  | y => level p.up - level p.down
  | left => level p.left
  | up => level p.up
  | right => level p.right
  | down => level p.down

/-- Half the right trigger less half the left one; halves fit a signed number. -/
def Snapshot.triggerDifference (s : Snapshot) : Int16 :=
  (s.rightTrigger / 2).toInt16 - (s.leftTrigger / 2).toInt16

namespace Control

/-- The value of a control. -/
def read (s : Snapshot) : Control → Float32
  | button b => level (s.pressed b)
  | leftTrigger => normalizeUnsigned s.leftTrigger
  | rightTrigger => normalizeUnsigned s.rightTrigger
  | bothTriggers => normalizeSigned s.triggerDifference
  | stick .left c => normalizeSigned (c.ofStick s.leftX s.leftY)
  | stick .right c => normalizeSigned (c.ofStick s.rightX s.rightY)
  | pad c => c.ofPad s.pad

def components : List (String × Component) :=
  [("x", .x), ("y", .y), ("left", .left), ("up", .up), ("right", .right), ("down", .down)]

/-- A control that must be read in parts. -/
def parted (part : Component → Control) : Jack Control :=
  ⟨none, components.map fun (name, c) => (name, part c)⟩

def jacks : List (String × Jack Control) :=
  [("x", .single (button .cross)), ("circle", .single (button .circle)),
    ("triangle", .single (button .triangle)), ("square", .single (button .square)),
    ("lb", .single (button .leftBumper)), ("rb", .single (button .rightBumper)),
    ("share", .single (button .share)), ("options", .single (button .options)),
    ("ps", .single (button .playStation)), ("lstick", .single (button .leftStick)),
    ("rstick", .single (button .rightStick)), ("lt", .single leftTrigger),
    ("rt", .single rightTrigger), ("lrt", .single bothTriggers),
    ("ljoy", parted (stick .left)), ("rjoy", parted (stick .right)), ("dpad", parted pad)]

def find (key : String) : Except BindingError Control := Jack.find "controller" jacks key

end Control

end Patchbay.Gamepad
