import Patchbay.Duration
/-!
# Timers

A stopwatch.  It holds the time of its start and, once stopped, the time of the stop; what it shows
also depends on the time `now` at which it is read.
-/

namespace Patchbay

/-- Times are nanoseconds on the clock of the bench. -/
structure Timer where
  begun : Nat
  ended : Option Nat := none
deriving DecidableEq, Repr

namespace Timer

def started (now : Nat) : Timer := ⟨now, none⟩

/-- Begins anew, running. -/
def start (_ : Timer) (now : Nat) : Timer := ⟨now, none⟩

/-- Begins anew, but a stopped timer stays stopped where it was. -/
def reset (t : Timer) (now : Nat) : Timer := { t with begun := now }

/-- Stops; a stopped timer keeps its stop. -/
def stop (t : Timer) (now : Nat) : Timer := { t with ended := some (t.ended.getD now) }

def isRunning (t : Timer) : Bool := t.ended.isNone

/-- The span between start and stop, or between start and now; none if the stop came first. -/
def span (t : Timer) (now : Nat) : Nat := t.ended.getD now - t.begun

/-- Seconds since the start. -/
def elapsed (t : Timer) (now : Nat) : Float32 := Duration.seconds (t.span now)

end Timer

end Patchbay
