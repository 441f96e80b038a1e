import Patchbay.Config.Seconds
import Patchbay.Note
import Patchbay.Text.Fields
/-!
# The command line

Options may stand in any order around the path of the configuration.  An option that takes a value
has it after an equals sign or as the next argument; it is checked when the next option that is
known begins, or at the end.
-/

namespace Patchbay.CommandLine

structure Options where
  /-- The path of the configuration. -/
  config : Option String := none
  period : Option Config.Seconds := none
  level : Note.Level := .info
  simulate : Bool := false
deriving DecidableEq

inductive Request
  | run (o : Options)
  | help
  | version
deriving DecidableEq

/-- Arguments that take a value. -/
inductive Slot
  | config
  | period
  | level
deriving DecidableEq, Repr

def Slot.text : Slot → String
  | config => "[CONFIG]"
  | period => "--period <PERIOD>"
  | level => "--log-level <LOG_LEVEL>"

inductive Fault
  | unexpected (argument : String)
  | missingValue (slot : Slot)
  | unneededValue (value flag : String)
  | invalidPeriod (value : String) (cause : Config.TimeError)
  | invalidLevel (value : String)
  | repeated (argument : String)
deriving DecidableEq, Repr

def Fault.message : Fault → String
  | unexpected argument => s!"unexpected argument '{argument}' found"
  | missingValue slot => s!"a value is required for '{slot.text}' but none was supplied"
  | unneededValue value flag =>
    s!"unexpected value '{value}' for '{flag}' found; no more were expected"
  | invalidPeriod value cause =>
    s!"invalid value '{value}' for '{Slot.period.text}': {cause.message}"
  | invalidLevel value => s!"invalid value '{value}' for '{Slot.level.text}'"
  | repeated argument => s!"the argument '{argument}' cannot be used multiple times"

/-- What has been read so far. -/
structure Reading where
  config : Option String := none
  period : Option Config.Seconds := none
  level : Option Note.Level := none
  simulate : Bool := false
  /-- An argument that is not checked yet, and its value once it has one. -/
  pending : Option (Slot × Option String) := none

namespace Reading

def options (r : Reading) : Options :=
  { config := r.config, period := r.period, level := r.level.getD .info, simulate := r.simulate }

/-- Whether a slot is filled. -/
def has (r : Reading) : Slot → Bool
  | .config => r.config.isSome
  | .period => r.period.isSome
  | .level => r.level.isSome

/-- Fills a slot. -/
def fill (r : Reading) (slot : Slot) (value : String) : Except Fault Reading :=
  if r.has slot then .error (.repeated slot.text)
  else
    match slot with
    | .config =>
      if value = "" then .error (.missingValue .config) else .ok { r with config := value }
    | .period =>
      match Config.Seconds.read value with
      | .ok period => .ok { r with period }
      | .error cause => .error (.invalidPeriod value cause)
    | .level =>
      match Note.Level.ofName? value with
      | some level => .ok { r with level }
      | none => .error (if value = "" then .missingValue .level else .invalidLevel value)

/-- Checks the argument that is pending. -/
def settle (r : Reading) : Except Fault Reading :=
  match r.pending with
  | none => .ok r
  | some (slot, none) => .error (.missingValue slot)
  | some (slot, some value) => fill { r with pending := none } slot value

/-- Whether the path has been given. -/
def hasPath (r : Reading) : Bool :=
  r.config.isSome || r.pending.any fun (slot, _) => slot = .config

/-- Takes an argument for the path. -/
def takePath (r : Reading) (arg : String) : Except Fault Reading :=
  if r.hasPath then .error (.unexpected arg)
  else do return { ← r.settle with pending := some (.config, some arg) }

/-- Takes an argument that is no option: the value that an option waits for, or the path. -/
def takeWord (r : Reading) (arg : String) : Except Fault Reading :=
  match r.pending with
  | some (slot, none) => .ok { r with pending := some (slot, some arg) }
  | _ => r.takePath arg

/-- Begins an option that takes a value. -/
def beginSlot (r : Reading) (slot : Slot) (value : Option String) : Except Fault Reading := do
  let r : Reading := { ← r.settle with pending := some (slot, value) }
  if value.isSome then r.settle else return r

end Reading

/-- What an argument looks like. -/
inductive Argument
  | terminator
  | long (name : String) (value : Option String)
  | short (letter : Char)
  | word
deriving DecidableEq, Repr

def Argument.of (arg : String) : Argument :=
  match arg.toList with
  | ['-', '-'] => terminator
  | '-' :: '-' :: rest =>
    match Text.cutAt '=' rest with
    | some (name, value) => long (.ofList name) (some (.ofList value))
    | none => long (.ofList rest) none
  | '-' :: letter :: _ => short letter
  | _ => word

/-- Reads arguments; after the terminator there is no more option. -/
def readFrom (r : Reading) : List String → Except Fault Request
  | [] => return .run (← r.settle).options
  | arg :: rest =>
    match Argument.of arg with
    | .terminator => do return .run (← (← rest.foldlM Reading.takePath r).settle).options
    | .long "simulate" none => do
      let r ← r.settle
      if r.simulate then throw (.repeated "--simulate")
      readFrom { r with simulate := true } rest
    | .long "help" none | .short 'h' => do
      discard r.settle
      return .help
    | .long "version" none | .short 'V' => do
      discard r.settle
      return .version
    | .long "period" value => do readFrom (← r.beginSlot .period value) rest
    | .long "log-level" value => do readFrom (← r.beginSlot .level value) rest
    | .long name none => throw (.unexpected ("--" ++ name))
    | .long name (some value) =>
      if name ∈ ["simulate", "help", "version"] then throw (.unneededValue value ("--" ++ name))
      else throw (.unexpected ("--" ++ name))
    | .short letter => throw (.unexpected ("-" ++ letter.toString))
    | .word => do readFrom (← r.takeWord arg) rest

def read (args : List String) : Except Fault Request := readFrom {} args

def version : String := "pirig 0.1.0"

def help : String :=
  "Drive LEDs and motors from controller and button inputs\n\n"
    ++ "Usage: pirig [OPTIONS] [CONFIG]\n\n"
    ++ "Arguments:\n"
    ++ "  [CONFIG]                 Rig description (TOML)\n\n"
    ++ "Options:\n"
    ++ "      --period <PERIOD>        Tick period, e.g. \"10ms\"\n"
    ++ "      --log-level <LOG_LEVEL>  error, warn, info, debug or trace\n"
    ++ "      --simulate               Use the in-memory bench\n"
    ++ "  -h, --help                   Print help\n"
    ++ "  -V, --version                Print version"

end Patchbay.CommandLine
