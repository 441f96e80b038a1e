import Patchbay.Config.Devices
import Patchbay.Config.Field
import Patchbay.Connection
import Patchbay.Toml.Document
/-!
# Configurations

A configuration names the period of the ticks, the inputs, the outputs and the connections.  It is
read from a document; the first fault in the order of the document is told.
-/

namespace Patchbay.Config

open Toml (Value)

/-! ## Devices -/

/-- The fields of all devices. -/
inductive Field
  | id (s : String)
  | name (s : String)
  | pin (n : UInt8)
  | pins (l : List UInt8)
  | toggle (b : Bool)
  | drive (d : LightDrive)
  | lightMode (m : LightMode)
  | motorMode (m : MotorMode)
  | color (s : String)
  | brightness (x : Float32)
  | value (x : Float32)
  | max (x : Float32)
  | period (s : Seconds)

def Field.id? : Field → Option String
  | id s => some s
  | _ => none

def Field.name? : Field → Option String
  | name s => some s
  | _ => none

def Field.pin? : Field → Option UInt8
  | pin n => some n
  | _ => none

def Field.pins? : Field → Option (List UInt8)
  | pins l => some l
  | _ => none

def Field.toggle? : Field → Option Bool
  | toggle b => some b
  | _ => none

def Field.drive? : Field → Option LightDrive
  | drive d => some d
  | _ => none

def Field.lightMode? : Field → Option LightMode
  | lightMode m => some m
  | _ => none

def Field.motorMode? : Field → Option MotorMode
  | motorMode m => some m
  | _ => none

def Field.color? : Field → Option String
  | color s => some s
  | _ => none

def Field.brightness? : Field → Option Float32
  | brightness x => some x
  | _ => none

def Field.value? : Field → Option Float32
  | value x => some x
  | _ => none

def Field.max? : Field → Option Float32
  | max x => some x
  | _ => none

def Field.period? : Field → Option Seconds
  | period s => some s
  | _ => none

def controllerSchema : Schema Field where
  title := "struct variant InputConfig::Controller"
  order := [("id", false)]
  field
    | "id", v => some (Field.id <$> asText v)
    | _, _ => none

def buttonSchema : Schema Field where
  title := "struct variant InputConfig::Button"
  order := [("pin", false), ("toggle", true)]
  field
    | "pin", v => some (Field.pin <$> asByte v)
    | "toggle", v => some (Field.toggle <$> asFlag v)
    | _, _ => none

def lightModes : List (String × LightMode) :=
  [("solid", .solid), ("cycle", .cycle), ("flash", .flash)]

def lightDrives : List (String × LightDrive) := [("digital", .digital), ("pwm", .pwm)]

def motorModes : List (String × MotorMode) :=
  [("constant", .constant), ("oscillate", .oscillate), ("dance", .dance)]

def lightSchema : Schema Field where
  title := "struct LightConfig"
  order := [("name", false), ("pins", false), ("drive", true), ("mode", false), ("color", true),
    ("brightness", true), ("period", true)]
  field
    | "name", v => some (Field.name <$> asText v)
    | "pins", v => some (Field.pins <$> asList asByte v)
    | "drive", v => some (Field.drive <$> asOneOf lightDrives v)
    | "mode", v => some (Field.lightMode <$> asOneOf lightModes v)
    | "color", v => some (Field.color <$> asText v)
    | "brightness", v => some (Field.brightness <$> asSingle v)
    | "period", v => some (Field.period <$> asSeconds v)
    | _, _ => none

def motorSchema : Schema Field where
  title := "struct MotorConfig"
  order := [("name", false), ("pin", false), ("pins", false), ("mode", true), ("value", true),
    ("max", true), ("period", true)]
  field
    | "name", v => some (Field.name <$> asText v)
    | "pin", v => some (Field.pin <$> asByte v)
    | "pins", v => some (Field.pins <$> asList asByte v)
    | "mode", v => some (Field.motorMode <$> asOneOf motorModes v)
    | "value", v => some (Field.value <$> asSingle v)
    | "max", v => some (Field.max <$> asSingle v)
    | "period", v => some (Field.period <$> asSeconds v)
    | _, _ => none

/-- Types of inputs. -/
inductive InputType
  | controller
  | button
deriving DecidableEq, Repr

/-- Types of outputs. -/
inductive OutputType
  | light
  | motor
deriving DecidableEq, Repr

def inputTypes : List (String × InputType) := [("controller", .controller), ("button", .button)]

def outputTypes : List (String × OutputType) := [("light", .light), ("motor", .motor)]

def InputType.schema : InputType → Schema Field
  | controller => controllerSchema
  | button => buttonSchema

def OutputType.schema : OutputType → Schema Field
  | light => lightSchema
  | motor => motorSchema

def InputType.config (t : InputType) (g : Given Field) : Except DecodeError InputConfig :=
  match t with
  | controller => return .controller (← g.need "id" Field.id?)
  | button => return .button (← g.need "pin" Field.pin?) ((g.find Field.toggle?).getD false)

def OutputType.config (t : OutputType) (g : Given Field) : Except DecodeError OutputConfig :=
  match t with
  | light =>
    return .light {
      name := ← g.need "name" Field.name?
      pins := ← g.need "pins" Field.pins?
      drive := (g.find Field.drive?).getD .pwm
      mode := ← g.need "mode" Field.lightMode?
      color := (g.find Field.color?).getD "white"
      brightness := (g.find Field.brightness?).getD 1.0
      period := (g.find Field.period?).getD ⟨1.0⟩ }
  | motor =>
    return .motor {
      name := ← g.need "name" Field.name?
      pin := g.find Field.pin?
      pins := g.find Field.pins?
      mode := (g.find Field.motorMode?).getD .constant
      value := (g.find Field.value?).getD 1.0
      max := (g.find Field.max?).getD 1.0
      period := (g.find Field.period?).getD ⟨1.0⟩ }

/-- The key that tells the type of a device. -/
def typeKey : String := "type"

def asType {α : Type} (types : List (String × α)) : Decoder α
  | .string name => named types name
  | v => mistyped "variant identifier" v

/-- Reads a device of some type.  Its type is read where it stands, the other fields after it; in an
array the type comes first. -/
def asDevice {T α : Type} (title : String) (types : List (String × T)) (schema : T → Schema Field)
    (config : T → Given Field → Except DecodeError α) (v : Value) : Except DecodeError α := do
  match v, entries? v with
  | .array items, _ =>
    match items with
    | [] => throw (.missingField typeKey)
    | tag :: items =>
      let t ← asType types tag
      config t (← (schema t).ofItems items)
  | _, some entries =>
    match entries.lookup typeKey with
    | none => throw (.missingField typeKey)
    | some tag =>
      let t ← asType types tag
      config t (← (schema t).ofEntries (entries.filter (·.1 ≠ typeKey)))
  | v, none => mistyped ("internally tagged enum " ++ title) v

def asInput : Decoder InputConfig :=
  asDevice "InputConfig" inputTypes InputType.schema InputType.config

def asOutput : Decoder OutputConfig :=
  asDevice "OutputConfig" outputTypes OutputType.schema OutputType.config

/-! ## The whole -/

def asEntries : Decoder (List (String × Value)) := fun v =>
  match entries? v with
  | some entries => .ok entries
  | none => mistyped "a map" v

/-- Reads a table of values of any kind. -/
def asTable : Decoder (List (String × Value)) := fun v => do asAnyEntries (← asEntries v)

/-- Reads the values of a table in order. -/
def asRegistry {α : Type} (item : Decoder α) (v : Value) : Except DecodeError (Registry α) := do
  let entries ← asEntries v
  return .ofList (← entries.mapM fun (name, v) => return (name, ← item v))

/-- The period when none is given. -/
def defaultPeriod : Seconds := ⟨0.01⟩

/-- The section about the ticks holds their period. -/
def asPeriod (v : Value) : Except DecodeError Seconds :=
  match v, entries? v with
  | .array [], _ => return defaultPeriod
  | .array (period :: _), _ => asSeconds period
  | _, some entries =>
    match entries.lookup "period" with
    | some period => asSeconds period
    | none => return defaultPeriod
  | v, none => mistyped "struct SchedulerConfig" v

end Patchbay.Config

namespace Patchbay

/-- What a rig is built from.  A connection holds values of any kind, which `specs` tells apart. -/
structure RigConfig where
  period : Config.Seconds := Config.defaultPeriod
  inputs : Registry Config.InputConfig := .empty
  outputs : Registry Config.OutputConfig := .empty
  connections : List (List (String × Toml.Value)) := []

namespace RigConfig

open Config

/-- Takes over one entry of a document; unknown ones are passed over. -/
def addEntry (c : RigConfig) (entry : String × Toml.Value) : Except DecodeError RigConfig :=
  match entry with
  | ("scheduler", v) => return { c with period := ← asPeriod v }
  | ("inputs", v) => return { c with inputs := ← asRegistry asInput v }
  | ("outputs", v) => return { c with outputs := ← asRegistry asOutput v }
  | ("connections", v) => return { c with connections := ← asList asTable v }
  | _ => return c

/-- The fault of a document that has one.  When the document is not even a table of values of any
kind, that is told and not the fault that was met first. -/
def blame (entries : List (String × Toml.Value)) (cause : DecodeError) : ConfigError :=
  match asAnyEntries entries with
  | .ok _ => .decode cause
  | .error _ => .notToml

/-- Reads a configuration. -/
def read (text : String) : Except ConfigError RigConfig :=
  match Toml.read text with
  | none => .error .notToml
  | some entries => (entries.foldlM addEntry {}).mapError (blame entries)

/-- What is noted when a configuration has been read. -/
def note (c : RigConfig) : Note :=
  ⟨.debug, s!"Parsed rig: {c.inputs.size} inputs, {c.outputs.size} outputs, "
    ++ s!"{c.connections.length} connections"⟩

/-- Adds one entry to a connection: its output, its function or a source. -/
def addToSpec (index : Nat) (spec : ConnectionSpec) (entry : String × Toml.Value) :
    Except ConfigError ConnectionSpec :=
  match entry with
  | ("output", .string s) => return { spec with output := some s }
  | ("function", .string s) => return { spec with function := some s }
  | (name, .string s) => return { spec with sources := spec.sources ++ [(name, s)] }
  | (key, v) => .error (.notAString index key v.kind)

/-- The connections in their order. -/
def specs (c : RigConfig) : Except ConfigError (List ConnectionSpec) :=
  c.connections.zipIdx.mapM fun (entries, index) => entries.foldlM (addToSpec index) {}

end RigConfig

end Patchbay
