import Patchbay.Single.Basic
/-!
# Parameters

A number that connections may change while an output runs.  It remembers whether it changed since it
was last looked at, so that an output can leave its pins alone when nothing did.
-/

namespace Patchbay

/-- A new parameter counts as changed. -/
structure Param where
  value : Float32
  dirty : Bool := true
deriving DecidableEq

namespace Param

/-- Writes a value; an equal value changes nothing. -/
def set (p : Param) (v : Float32) : Param := if p.value == v then p else ⟨v, true⟩

/-- The parameter once it was looked at. -/
def clean (p : Param) : Param := { p with dirty := false }

end Param

/-- The shortest period that a waveform can have, in seconds. -/
def minPeriod : Float32 := 1e-3

/-- A period is at least the shortest one, whatever is written. -/
def atLeastMinPeriod (v : Float32) : Float32 := Single.larger v minPeriod

end Patchbay
