import Patchbay.CommandLine
import Patchbay.Rig.Build
import Patchbay.Scheduler
/-!
# The program

Loads a configuration, builds its rig, and ticks it until it is interrupted.
-/

namespace Patchbay

/-! ## Loading -/

/-- A path below a directory. -/
def joinPath (directory name : String) : String :=
  if directory.toList.getLast? = some '/' then directory ++ name else directory ++ "/" ++ name

/-- The path of the configuration when none is given.  A relative directory for configurations is
not taken. -/
def RigConfig.defaultPath (directory : Option String) (home : String) : String :=
  let directory := match directory.filter (·.toList.head? = some '/') with
    | some directory => directory
    | none => joinPath home ".config"
  joinPath (joinPath directory "pirig") "rig.toml"

/-- Reads the configuration of a path, from its text or the reason why there is none. -/
def RigConfig.load (path : String) (content : Except FileError String) :
    EStateM ConfigError Bench RigConfig :=
  match content with
  | .error cause => throw (.unreadable path cause)
  | .ok text => do
    modify (·.note .info s!"Loading rig from {path}")
    match read text with
    | .error cause => throw cause
    | .ok c =>
      modify (·.addNote c.note)
      return c

namespace Program

/-! ## Running -/

inductive Fault
  | config (path : String) (cause : ConfigError)
  | period (s : Config.Seconds)
  | device (cause : DeviceError)
  | rig (cause : RigError)
deriving DecidableEq

def Fault.message : Fault → String
  | config path cause => path ++ ": " ++ (RigError.configuration cause).message
  | period s => s!"Tick period must be positive, got {s.text}"
  | device cause => cause.message
  | rig cause => cause.message

/-- Starts a scheduler for the configuration at a path.  The period is checked before any device is
touched. -/
def setUp (o : CommandLine.Options) (path : String) (content : Except FileError String) :
    EStateM Fault Bench (Scheduler .running) := do
  let c ← (RigConfig.load path content).adaptExcept (.config path)
  let period := o.period.getD c.period
  if period.value ≤ 0.0 then throw (.period period)
  if !o.simulate then throw (.device (.gpioInit "there is no board"))
  modify Bench.use
  let rig ← (Rig.ofConfig c).adaptExcept .rig
  let s ← modifyGet (Scheduler.create rig period.span)
  modifyGet s.start

/-- Leaves a stopped scheduler. -/
def windDown (s : Scheduler .stopped) (b : Bench) : Bench :=
  let (rig, b) := s.intoRig b
  (rig.release b).note .info "Rig released"

/-- Reports a tick that failed. -/
def fail (s : Scheduler .running) (cause : RigError) (b : Bench) : Bench :=
  (s.giveUp cause b).note .error s!"Stopping on fatal error: {cause.message}"

/-- Runs until an interrupt, which comes while the first tick sleeps. -/
def runInterrupted (o : CommandLine.Options) (path : String) (content : Except FileError String) :
    EStateM Fault Bench Unit := do
  let s ← setUp o path content
  let b ← get
  match s.tick 0 b with
  | (.error cause, s, b) =>
    set (fail s cause b)
    throw (.rig cause)
  | (.ok (), s, b) =>
    let b := b.note .info "Interrupt received, stopping after this tick"
    set (windDown s.stop (b.note .info s!"Shutdown requested after {s.stats.ticks} ticks"))

end Program

end Patchbay
