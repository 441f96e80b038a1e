import Patchbay.Decimal.Text
import Patchbay.Text.Quoted
/-!
# Shapes of document values

What a document holds at one place, as far as a fault has to name it, and the faults of a document
whose values are not what the rig expects.
-/

namespace Patchbay.Config

inductive Shape
  | null
  | boolean (value : Bool)
  | integer (value : Int)
  | float (value : Float)
  | string (value : String)
  | sequence
  | map
  | unit
deriving DecidableEq

/-- A word or number in back quotes. -/
def ticked (s : String) : String := "\x60" ++ s ++ "\x60"

def Shape.text : Shape → String
  | null => "null"
  | boolean value => "boolean " ++ ticked (toString value)
  | integer value => "integer " ++ ticked (toString value)
  | float value => "floating point " ++ ticked (Decimal.pointedDouble value)
  | string value => "string " ++ Text.quoted value
  | sequence => "sequence"
  | map => "map"
  | unit => "unit value"

/-- What can be wrong with a time, with the time as it was written. -/
inductive TimeError
  | unrecognized (shown : String)
  | negative (shown : String)
  | outOfRange (shown : String)
deriving DecidableEq, Repr

def TimeError.message : TimeError → String
  | unrecognized shown => s!"Unrecognized time: {shown}"
  | negative shown => s!"Time must be a non-negative number: {shown}"
  | outOfRange shown => s!"Time out of range: {shown}"

/-- Faults of a document that is well formed. -/
inductive DecodeError
  | invalidType (found : Shape) (expected : String)
  | invalidValue (found : Shape) (expected : String)
  | invalidLength (length : Nat) (expected : String)
  | unknownVariant (name : String) (known : List String)
  | missingField (name : String)
  | time (cause : TimeError)
  | invalidDateTime
deriving DecidableEq

/-- Alternatives in words. -/
def oneOf : List String → String
  | [] => "there are no variants"
  | [a] => "expected " ++ ticked a
  | [a, b] => s!"expected {ticked a} or {ticked b}"
  | names => "expected one of " ++ ", ".intercalate (names.map ticked)

def DecodeError.message : DecodeError → String
  | invalidType found expected => s!"invalid type: {found.text}, expected {expected}"
  | invalidValue found expected => s!"invalid value: {found.text}, expected {expected}"
  | invalidLength length expected => s!"invalid length {length}, expected {expected}"
  | unknownVariant name known => s!"unknown variant {ticked name}, {oneOf known}"
  | missingField name => s!"missing field {ticked name}"
  | time cause => cause.message
  | invalidDateTime => "invalid datetime"

end Patchbay.Config
