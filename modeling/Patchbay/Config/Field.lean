import Patchbay.Config.Seconds
import Patchbay.Toml.Value
/-!
# Fields

Reading one value of a document as what is expected at its place, and the fields of a record.  A
record is a table, or an array with the fields in their order.
-/

namespace Patchbay.Config

open Toml (Value)

/-- Reads a value as an `α`. -/
abbrev Decoder (α : Type) := Value → Except DecodeError α

/-- The key under which a date or time is found when it is taken for a table. -/
def dateTimeKey : String := "$__toml_private_datetime"

def shape : Value → Shape
  | .string s => .string s
  | .integer n => .integer n
  | .float x => .float x
  | .boolean b => .boolean b
  | .dateTime _ | .table _ => .map
  | .array _ => .sequence

/-- The entries of a table.  A date or time counts as a table with its text as the only entry. -/
def entries? : Value → Option (List (String × Value))
  | .table entries => some entries
  | .dateTime t => some [(dateTimeKey, .string t.text)]
  | _ => none

def mistyped {α : Type} (expected : String) (v : Value) : Except DecodeError α :=
  .error (.invalidType (shape v) expected)

/-! ## Plain values -/

def asText : Decoder String
  | .string s => .ok s
  | v => mistyped "a string" v

def asFlag : Decoder Bool
  | .boolean b => .ok b
  | v => mistyped "a boolean" v

def asByte : Decoder UInt8
  | .integer n =>
    if 0 ≤ n ∧ n < 256 then .ok (.ofNat n.toNat) else .error (.invalidValue (.integer n) "u8")
  | v => mistyped "u8" v

def asSingle : Decoder Float32
  | .integer n => .ok (Single.ofInt n)
  | .float x => .ok (Single.narrow x)
  | v => mistyped "f32" v

def asSeconds : Decoder Seconds := fun v => Seconds.decode (shape v)

def asList {α : Type} (item : Decoder α) : Decoder (List α)
  | .array items => items.mapM item
  | v => mistyped "a sequence" v

/-- Reads the text under the key of dates and times. -/
def asDateTime : Decoder Value
  | .string s =>
    match Toml.DateTime.ofText? s with
    | some t => .ok (.dateTime t)
    | none => .error .invalidDateTime
  | v => mistyped "string containing a datetime" v

mutual

/-- Takes a value of any kind.  A table that begins with the key of dates and times is a date or
time, whatever else it holds. -/
def asAny : Decoder Value
  | .array items => Value.array <$> asAnyList items
  | .table ((name, v) :: rest) =>
    if name = dateTimeKey then asDateTime v
    else return .table ((name, ← asAny v) :: (← asAnyEntries rest))
  | v => .ok v

def asAnyList : List Value → Except DecodeError (List Value)
  | [] => .ok []
  | v :: rest => return (← asAny v) :: (← asAnyList rest)

def asAnyEntries : List (String × Value) → Except DecodeError (List (String × Value))
  | [] => .ok []
  | (name, v) :: rest => return (name, ← asAny v) :: (← asAnyEntries rest)

end

/-- The value of a name. -/
def named {α : Type} (names : List (String × α)) (name : String) : Except DecodeError α :=
  match names.lookup name with
  | some a => .ok a
  | none => .error (.unknownVariant name (names.map Prod.fst))

/-- One of some names, perhaps as the only key of a table, with an empty table under it. -/
def asOneOf {α : Type} (names : List (String × α)) (v : Value) : Except DecodeError α :=
  match v, entries? v with
  | .string name, _ => named names name
  | _, some [(name, content)] => do
    let a ← named names name
    match content with
    | .table [] => return a
    | content => mistyped "unit" content
  | _, some _ => .error (.invalidValue .map "map with a single key")
  | v, none => mistyped "string or map" v

/-! ## Records -/

/-- What a record is made of.  `Field` is a field that has been read. -/
structure Schema (Field : Type) where
  /-- The record in words. -/
  title : String
  /-- The fields in their order, each with whether a record in array form may end before it. -/
  order : List (String × Bool)
  /-- Reads the field of a name; other names are passed over. -/
  field : String → Value → Option (Except DecodeError Field)

/-- Fields that have been read, and the fault if one of them is needed and was not given. -/
structure Given (Field : Type) where
  fields : List Field
  missing : String → DecodeError

/-- Reads the fields of a table in their order in the document. -/
def Schema.ofEntries {Field : Type} (s : Schema Field) (entries : List (String × Value)) :
    Except DecodeError (Given Field) := do
  let fields ← entries.filterMapM fun (name, v) => (s.field name v).sequence
  return ⟨fields, .missingField⟩

/-- A number of things. -/
def counted (n : Nat) : String := if n = 1 then "1 element" else toString n ++ " elements"

/-- Reads the fields of an array by position. -/
def Schema.ofItems {Field : Type} (s : Schema Field) (items : List Value) :
    Except DecodeError (Given Field) := do
  let names := s.order.map Prod.fst
  let fields ← (names.zip items).filterMapM fun (name, v) => (s.field name v).sequence
  let tooShort (length : Nat) : DecodeError :=
    .invalidLength length (s.title ++ " with " ++ counted names.length)
  let rest := s.order.drop items.length
  match rest.findIdx? (!·.2) with
  | some i => throw (tooShort (items.length + i))
  | none => pure ()
  if items.length > names.length then
    throw (.invalidLength items.length (counted names.length ++ " in sequence"))
  return ⟨fields, fun name => tooShort (names.idxOf name)⟩

/-- A field that was given. -/
def Given.find {Field α : Type} (g : Given Field) (pick : Field → Option α) : Option α :=
  g.fields.findSome? pick

/-- A field that must be given. -/
def Given.need {Field α : Type} (g : Given Field) (name : String) (pick : Field → Option α) :
    Except DecodeError α :=
  match g.find pick with
  | some a => .ok a
  | none => .error (g.missing name)

end Patchbay.Config
