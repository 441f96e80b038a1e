import Patchbay.Config.Shape
import Patchbay.Decimal.Literal
import Patchbay.Duration
import Patchbay.Text.Blank
/-!
# Seconds

Times as a person writes them: `10ms`, `2.5s`, `250us`, `40ns`, or a plain number of seconds.
-/

namespace Patchbay.Config

open Text (between)

/-- A span of time in seconds; a time that was read is not negative and fits in a duration. -/
structure Seconds where
  value : Float32
deriving DecidableEq

namespace Seconds

/-- Accepts a number of seconds that a duration can hold; faults show the time as `shown`. -/
def check (value : Float32) (shown : String) : Except TimeError Seconds :=
  if !value.isFinite ∨ value < 0.0 then .error (.negative shown)
  else
    match Duration.ofSeconds? value with
    | some _ => .ok ⟨value⟩
    | none => .error (.outOfRange shown)

/-- Takes the unit off: the number before it and how many of the unit make a second. -/
def cutUnit (cs : List Char) : List Char × Float32 :=
  match cs.getLast? with
  | some 'n' => (cs.dropLast, 1e9)
  | some 'u' => (cs.dropLast, 1e6)
  | some 'm' => (cs.dropLast, 1e3)
  | _ => (cs, 1.0)

/-- Reads a time; blanks may stand around it and before the unit. -/
def read (text : String) : Except TimeError Seconds :=
  let trimmed := Text.trimList text.toList
  let number := if trimmed.getLast? = some 's' then trimmed.dropLast else trimmed
  let (number, perSecond) := cutUnit number
  match Decimal.readSingle (Text.trimList number) with
  | none => .error (.unrecognized (between text))
  | some value => check (value / perSecond) (between text)

def text (s : Seconds) : String := Decimal.plain s.value ++ "s"

/-- The nearest span; negative times are no time, and times without end are the longest span. -/
def span (s : Seconds) : Nat :=
  (Duration.ofSeconds? (Single.larger s.value 0.0)).getD Duration.longest

/-- A double-precision number of seconds. -/
def ofDouble (x : Float) : Except DecodeError Seconds :=
  (check (Single.narrow x) (Decimal.plainDouble x)).mapError .time

/-- A time in a document is a text or a number. -/
def decode : Shape → Except DecodeError Seconds
  | .string text => (read text).mapError .time
  | .float x => ofDouble x
  | .integer n => ofDouble (Single.doubleOfInt n)
  | found => .error (.invalidType found "a duration such as \"10ms\" or a number of seconds")

end Seconds

end Patchbay.Config
