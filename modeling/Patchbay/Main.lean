import Patchbay.Program
/-!
# Entry point

Reads the arguments, the environment and the configuration, and prints notes as they are made.
-/

namespace Patchbay.Main

/-- Prints the notes of a bench and forgets them. -/
def flush (level : Note.Level) (b : Bench) : IO Bench := do
  IO.print (Note.log level b.journal)
  return { b with journal := #[] }

/-- Why a file could not be read. -/
def fileError : IO.Error → FileError
  | .noFileOrDirectory .. => .notFound
  | .inappropriateType _ 20 _ => .notDirectory
  | .inappropriateType .. => .isDirectory
  | .invalidArgument _ 36 _ => .nameTooLong
  | .userError _ => .notText
  | e => .other (toString e)

/-- The text of a file, or the reason why it cannot be read. -/
def readFile (path : String) : IO (Except FileError String) := do
  if path.toList.contains '\x00' then return .error .nulInPath
  return (← (IO.FS.readFile path).toBaseIO).mapError fileError

/-- Sleeps for some nanoseconds, rounded up to milliseconds, a day at a time. -/
def sleep (nanos : Nat) : IO Unit := do
  let millis := (nanos + 999999) / 1000000
  let day := 24 * 60 * 60 * 1000
  for _ in [0:millis / day] do IO.sleep day.toUInt32
  IO.sleep (millis % day).toUInt32

/-- Ticks for ever, or until a tick fails.  The time that a tick takes on the bench is slept. -/
partial def loop (level : Note.Level) (s : Scheduler .running) (b : Bench) : IO UInt32 := do
  match s.tick 0 b with
  | (.error cause, s, after) =>
    discard (flush level (Program.fail s cause after))
    IO.eprintln ("Error: " ++ cause.message)
    return 1
  | (.ok (), s, after) =>
    sleep (after.clock - b.clock)
    loop level s (← flush level after)

def run (o : CommandLine.Options) : IO UInt32 := do
  let path ← match o.config with
    | some path => pure path
    | none => do
      let directory ← IO.getEnv "XDG_CONFIG_HOME"
      let home ← IO.getEnv "HOME"
      pure (RigConfig.defaultPath directory (home.getD "."))
  match Program.setUp o path (← readFile path) {} with
  | .error fault b =>
    discard (flush o.level b)
    IO.eprintln ("Error: " ++ fault.message)
    return 1
  | .ok s b => loop o.level s (← flush o.level b)

end Patchbay.Main

def main (args : List String) : IO UInt32 := do
  match Patchbay.CommandLine.read args with
  | .error fault =>
    IO.eprintln ("error: " ++ fault.message)
    return 2
  | .ok .help =>
    IO.println Patchbay.CommandLine.help
    return 0
  | .ok .version =>
    IO.println Patchbay.CommandLine.version
    return 0
  | .ok (.run o) => Patchbay.Main.run o
