import Patchbay.Bench.Basic
import Patchbay.Gamepad.Control
/-!
# Controllers

A gamepad under a name.  A poll reads all bytes that wait under that name and applies their events.
-/

namespace Patchbay.Gamepad

structure Controller where
  id : String
  snapshot : Snapshot := {}
deriving DecidableEq, Repr

namespace Controller

def kind : String := "controller"

/-- Applies the events that wait.  A malformed record stops the poll; the events before it count,
and the bytes after it are lost. -/
def poll (c : Controller) (b : Bench) : Except ProtocolError Unit × Controller × Bench :=
  let (bytes, b) := b.drain c.id
  if bytes.isEmpty then (.ok (), c, b)
  else
    match c.snapshot.decode bytes with
    | .error cause snapshot => (.error cause, { c with snapshot }, b)
    | .ok count snapshot =>
      let b := b.note .debug s!"Controller {c.id} applied {count} events"
      let b := b.note .trace s!"Controller {c.id} state:\n{snapshot.text}"
      (.ok (), { c with snapshot }, b)

end Controller

end Patchbay.Gamepad
