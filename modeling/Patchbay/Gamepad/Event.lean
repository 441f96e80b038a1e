/-!
# Gamepad events

A gamepad sends records of eight bytes: four of a time stamp and two of data, low bytes first, then
the kind of the event and the number of the control.  The top bit of the kind marks records that
only report the state at the start and says nothing else.
-/

namespace Patchbay.Gamepad

/-- Malformed records. -/
inductive ProtocolError
  | misaligned (length : Nat)
  | unknownEventType (kind : UInt8)
  | unknownButton (id : UInt8)
  | unknownAxis (id : UInt8)
  | invalidButtonData (id : UInt8) (data : UInt16)
deriving DecidableEq, Repr

def ProtocolError.message : ProtocolError → String
  | misaligned length => s!"event buffer of {length} bytes is not a multiple of 8"
  | unknownEventType kind => s!"unknown controller event type: {kind}"
  | unknownButton id => s!"unknown controller button id: {id}"
  | unknownAxis id => s!"unknown controller axis id: {id}"
  | invalidButtonData id data => s!"unknown data {data} for controller button {id}"

inductive EventType
  | button
  | axis
deriving DecidableEq, Repr

/-- Clears the bit that marks a report of the state at the start. -/
def unmarked (kind : UInt8) : UInt8 := kind &&& 0x7f

def EventType.ofRaw (raw : UInt8) : Except ProtocolError EventType :=
  if unmarked raw = 1 then .ok button
  else if unmarked raw = 2 then .ok axis
  else .error (.unknownEventType (unmarked raw))

structure Event where
  timestamp : UInt32
  data : UInt16
  kind : UInt8
  id : UInt8
deriving DecidableEq, Repr

namespace Event

/-- An event of a button; data one is a press and data zero a release. -/
def button (id : UInt8) (data : UInt16) : Event := ⟨0, data, 1, id⟩

/-- An event of an axis. -/
def axis (id : UInt8) (value : Int16) : Event := ⟨0, value.toUInt16, 2, id⟩

/-- The data of an axis. -/
def value (e : Event) : Int16 := e.data.toInt16

def type (e : Event) : Except ProtocolError EventType := EventType.ofRaw e.kind

def toBytes (e : Event) : List UInt8 :=
  [e.timestamp.toUInt8, (e.timestamp >>> 8).toUInt8, (e.timestamp >>> 16).toUInt8,
    (e.timestamp >>> 24).toUInt8, e.data.toUInt8, (e.data >>> 8).toUInt8, e.kind, e.id]

/-- The events of a buffer, up to a rest that is too short for one. -/
def ofBytes : List UInt8 → List Event
  | t0 :: t1 :: t2 :: t3 :: d0 :: d1 :: kind :: id :: rest =>
    { timestamp := t0.toUInt32 ||| t1.toUInt32 <<< 8 ||| t2.toUInt32 <<< 16 ||| t3.toUInt32 <<< 24
      data := d0.toUInt16 ||| d1.toUInt16 <<< 8
      kind := unmarked kind
      id } :: ofBytes rest
  | _ => []

/-- The events of a buffer, which must end with an event. -/
def records (buffer : List UInt8) : Except ProtocolError (List Event) :=
  if buffer.length % 8 ≠ 0 then .error (.misaligned buffer.length) else .ok (ofBytes buffer)

def encode (events : List Event) : List UInt8 := events.flatMap toBytes

end Event

end Patchbay.Gamepad
