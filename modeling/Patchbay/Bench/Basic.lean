import Patchbay.Bench.Drive
import Patchbay.Note
/-!
# The bench

Everything outside the rig: the lines that pins are connected to, the bytes that gamepads have sent
and nobody has read, the clock, the journal of what was noted, and what differs between platforms:
the power function, and how long sleeps last.

A line belongs to one pin at a time.  Lines that nobody drives are pulled high.
-/

namespace Patchbay

structure Line where
  claimed : Bool := false
  inputHigh : Bool := true
  /-- The last drive since the line was claimed. -/
  last : Option Drive := none
  /-- The number of drives ever. -/
  writes : Nat := 0
deriving DecidableEq

/-- How long sleeps last.  A sleep may end early or late, but one of some time takes some time. -/
structure Sleeps where
  /-- The time that a sleep takes which begins at the time `now` and is to last for `span`. -/
  lasts : (now span : Nat) → Nat
  lasts_pos : ∀ now span, 0 < span → 0 < lasts now span

namespace Sleeps

/-- Sleeps that last as long as they are to. -/
def exactly : Sleeps where
  lasts _ span := span
  lasts_pos _ _ h := h

/-- Sleeps that last as long as they are to, but no longer than some time. -/
def cutAt (longest : Nat) (hlongest : 0 < longest) : Sleeps where
  lasts _ span := min span longest
  lasts_pos _ _ h := Nat.lt_min.mpr ⟨h, hlongest⟩

end Sleeps

structure Bench where
  lines : Vector Line 256 := .replicate 256 {}
  waiting : List (String × List UInt8) := []
  /-- Nanoseconds since the start. -/
  clock : Nat := 0
  journal : Array Note := #[]
  /-- How the platform raises a number to a power; the last digits differ between platforms. -/
  power : Float32 → Float32 → Float32 := Float32.pow
  /-- How long the platform lets its sleepers sleep. -/
  sleeps : Sleeps := .exactly

namespace Bench

/-! ## Lines -/

def line (b : Bench) (pin : UInt8) : Line :=
  have := pin.toNat_lt
  b.lines[pin.toNat]

def setLine (b : Bench) (pin : UInt8) (line : Line) : Bench :=
  { b with lines := b.lines.set pin.toNat line pin.toNat_lt }

@[simp] theorem line_setLine (b : Bench) (p q : UInt8) (l : Line) :
    (b.setLine p l).line q = if p = q then l else b.line q := by
  by_cases h : p = q
  · subst h
    simp [line, setLine]
  · have hne : p.toNat ≠ q.toNat := fun e => h (UInt8.toNat_inj.mp e)
    simp [line, setLine, h, Vector.getElem_set_ne, hne]

/-- The processor's numbers of the pins, in the order of the board's numbers. -/
def boardPins : List UInt8 :=
  [2, 3, 4, 17, 27, 22, 10, 9, 11, 0, 5, 6, 13, 19, 26, 21, 20, 16, 12, 1, 7, 8, 25, 24, 23, 18,
    15, 14]

/-- The processor's number of a pin; the board has pins 0 to 27. -/
def boardPin (pin : UInt8) : Except DeviceError UInt8 :=
  match boardPins[pin.toNat]? with
  | some number => .ok number
  | none => .error (.pinOutOfRange pin)

/-- Takes a line that nobody has. -/
def claim (pin : UInt8) : EStateM DeviceError Bench Unit := fun b =>
  match boardPin pin with
  | .error cause => .error cause b
  | .ok _ =>
    if (b.line pin).claimed then .error (.pinBusy pin) b
    else .ok () (b.setLine pin { b.line pin with claimed := true })

/-- Drives a line. -/
def write (b : Bench) (pin : UInt8) (drive : Drive) : Bench :=
  b.setLine pin { b.line pin with last := some drive, writes := (b.line pin).writes + 1 }

/-- Gives a line back. -/
def release (b : Bench) (pin : UInt8) : Bench :=
  b.setLine pin { b.line pin with claimed := false, last := none }

def releaseAll (b : Bench) (pins : List UInt8) : Bench := pins.foldl release b

/-- Sets the level that an input line has from outside. -/
def setInput (b : Bench) (pin : UInt8) (high : Bool) : Bench :=
  b.setLine pin { b.line pin with inputHigh := high }

/-! ## Bytes from gamepads -/

/-- The bytes that wait under a name. -/
def queue (b : Bench) (id : String) : List UInt8 := (b.waiting.lookup id).getD []

def setQueue (b : Bench) (id : String) (bytes : List UInt8) : Bench :=
  { b with waiting := (id, bytes) :: b.waiting.filter (·.1 ≠ id) }

/-- Bytes arrive. -/
def feed (b : Bench) (id : String) (bytes : List UInt8) : Bench :=
  b.setQueue id (b.queue id ++ bytes)

/-- Everything that waits under a name is read. -/
def drain (b : Bench) (id : String) : List UInt8 × Bench := (b.queue id, b.setQueue id [])

/-! ## Clock and journal -/

def advance (b : Bench) (span : Nat) : Bench := { b with clock := b.clock + span }

/-- A sleep that is to last for some time. -/
def sleep (b : Bench) (span : Nat) : Bench := b.advance (b.sleeps.lasts b.clock span)

def note (b : Bench) (level : Note.Level) (text : String) : Bench :=
  { b with journal := b.journal.push ⟨level, text⟩ }

def addNote (b : Bench) (n : Note) : Bench := { b with journal := b.journal.push n }

/-- The bench is put to use. -/
def use (b : Bench) : Bench := b.note .info "Using simulated wiring backend"

/-- The longest that a sleep was seen to last on the simulated clock: thirty years. -/
def longestSleep : Nat := 30 * 365 * 24 * 60 * 60 * 1000000000

/-- A fresh bench in use, with the simulated clock. -/
def fresh : Bench := use { sleeps := .cutAt longestSleep (by decide) }

/-- The name of the bench, for inspection. -/
def describe : String := "Backend::Simulated"

end Bench

end Patchbay
