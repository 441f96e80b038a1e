import Patchbay.Gamepad.Event
/-!
# Gamepad state

What a gamepad has last reported of each control, and how an event changes it.
-/

namespace Patchbay.Gamepad

/-- The buttons that are kept track of, in the order of their numbers. -/
inductive Button
  | cross
  | circle
  | triangle
  | square
  | leftBumper
  | rightBumper
  | share
  | options
  | playStation
  | leftStick
  | rightStick
deriving DecidableEq, Repr

namespace Button

def all : List Button :=
  [cross, circle, triangle, square, leftBumper, rightBumper, share, options, playStation,
    leftStick, rightStick]

def index : Button → Fin 11
  | cross => 0
  | circle => 1
  | triangle => 2
  | square => 3
  | leftBumper => 4
  | rightBumper => 5
  | share => 6
  | options => 7
  | playStation => 8
  | leftStick => 9
  | rightStick => 10

def label : Button → String
  | cross => "X"
  | circle => "Circle"
  | triangle => "Triangle"
  | square => "Square"
  | leftBumper => "L1"
  | rightBumper => "R1"
  | share => "Share"
  | options => "Options"
  | playStation => "PS"
  | leftStick => "LS"
  | rightStick => "RS"

/-- The button of a number.  The triggers report as buttons too, which says nothing that their axes
do not, so they are none. -/
def ofId (id : UInt8) : Except ProtocolError (Option Button) :=
  match id with
  | 0 => .ok (some cross)
  | 1 => .ok (some circle)
  | 2 => .ok (some triangle)
  | 3 => .ok (some square)
  | 4 => .ok (some leftBumper)
  | 5 => .ok (some rightBumper)
  | 6 | 7 => .ok none
  | 8 => .ok (some share)
  | 9 => .ok (some options)
  | 10 => .ok (some playStation)
  | 11 => .ok (some leftStick)
  | 12 => .ok (some rightStick)
  | id => .error (.unknownButton id)

theorem index_injective {a b : Button} (h : a.index = b.index) : a = b := by
  cases a <;> cases b <;> simp_all [index]

end Button

inductive Axis
  | leftX
  | leftY
  | leftTrigger
  | rightX
  | rightY
  | rightTrigger
  | padX
  | padY
deriving DecidableEq, Repr

def Axis.ofId (id : UInt8) : Except ProtocolError Axis :=
  match id with
  | 0 => .ok leftX
  | 1 => .ok leftY
  | 2 => .ok leftTrigger
  | 3 => .ok rightX
  | 4 => .ok rightY
  | 5 => .ok rightTrigger
  | 6 => .ok padX
  | 7 => .ok padY
  | id => .error (.unknownAxis id)

/-- The directional pad.  One of up and down and one of left and right may be held at a time. -/
structure Pad where
  up : Bool := false
  left : Bool := false
  down : Bool := false
  right : Bool := false
deriving DecidableEq, Repr

namespace Pad

def bits (p : Pad) : Nat :=
  p.up.toNat + 2 * p.left.toNat + 4 * p.down.toNat + 8 * p.right.toNat

def text (p : Pad) : String :=
  let names := [(p.up, "up"), (p.down, "down"), (p.left, "left"), (p.right, "right")]
  match (names.filter (·.1)).map (·.2) with
  | [] => "None"
  | held => " ".intercalate held

end Pad

structure Snapshot where
  buttons : Vector Bool 11 := .replicate 11 false
  leftTrigger : UInt16 := 0
  rightTrigger : UInt16 := 0
  leftX : Int16 := 0
  leftY : Int16 := 0
  rightX : Int16 := 0
  rightY : Int16 := 0
  pad : Pad := {}
deriving DecidableEq, Repr

/-- The negative, but the lowest number becomes the highest. -/
def opposite (v : Int16) : Int16 := if v = Int16.minValue then Int16.maxValue else -v

/-- Moves a trigger's range from signed to unsigned, modulo its size. -/
def unsigned (v : Int16) : UInt16 := v.toUInt16 + 32767

namespace Snapshot

def pressed (s : Snapshot) (b : Button) : Bool := s.buttons[b.index]

def setPressed (s : Snapshot) (b : Button) (value : Bool) : Snapshot :=
  { s with buttons := s.buttons.set b.index value }

@[simp] theorem pressed_setPressed (s : Snapshot) (a b : Button) (value : Bool) :
    (s.setPressed a value).pressed b = if a = b then value else s.pressed b := by
  by_cases h : a = b
  · subst h
    simp [pressed, setPressed]
  · have hne : (a.index : Nat) ≠ b.index := fun e => h (Button.index_injective (Fin.ext e))
    simp [pressed, setPressed, h, Vector.getElem_set_ne, hne]

/-- The state after an axis reported a value; up is positive on the sticks. -/
def setAxis (s : Snapshot) (axis : Axis) (value : Int16) : Snapshot :=
  match axis with
  | .leftX => { s with leftX := value }
  | .leftY => { s with leftY := opposite value }
  | .leftTrigger => { s with leftTrigger := unsigned value }
  | .rightX => { s with rightX := value }
  | .rightY => { s with rightY := opposite value }
  | .rightTrigger => { s with rightTrigger := unsigned value }
  | .padX => { s with pad := { s.pad with left := value < 0, right := 0 < value } }
  | .padY => { s with pad := { s.pad with up := value < 0, down := 0 < value } }

/-- The state after an event. -/
def apply (s : Snapshot) (e : Event) : Except ProtocolError Snapshot := do
  match ← e.type with
  | .button =>
    if e.data ≠ 0 ∧ e.data ≠ 1 then throw (.invalidButtonData e.id e.data)
    match ← Button.ofId e.id with
    | some button => return s.setPressed button (e.data = 1)
    | none => return s
  | .axis => return s.setAxis (← Axis.ofId e.id) e.value

/-- The number of events and the state after them, or the first fault and the state before it. -/
def applyAll (s : Snapshot) : List Event → EStateM.Result ProtocolError Snapshot Nat
  | [] => .ok 0 s
  | e :: rest =>
    match s.apply e with
    | .error cause => .error cause s
    | .ok next =>
      match next.applyAll rest with
      | .ok count last => .ok (count + 1) last
      | .error cause last => .error cause last

/-- Applies the events of a buffer. -/
def decode (s : Snapshot) (buffer : List UInt8) : EStateM.Result ProtocolError Snapshot Nat :=
  match Event.records buffer with
  | .error cause => .error cause s
  | .ok events => s.applyAll events

/-- The state in words, a control to a line. -/
def text (s : Snapshot) : String :=
  let button (b : Button) : String :=
    (b.label ++ ":").pushn ' ' (8 - b.label.length) ++ " " ++ toString (s.pressed b) ++ "\n"
  String.join (Button.all.map button)
    ++ s!"L2: {s.leftTrigger}\nR2: {s.rightTrigger}\n"
    ++ s!"Left Joy:  ({s.leftX}, {s.leftY})\nRight Joy: ({s.rightX}, {s.rightY})\n"
    ++ s!"DPad: {s.pad.text}"

end Snapshot

end Patchbay.Gamepad
