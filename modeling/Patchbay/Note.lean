import Patchbay.Text.Terminal
/-!
# Notes

What the program says about its own doings: a line of text at one of five levels.
-/

namespace Patchbay

/-- Levels of notes, from what always matters to what rarely does. -/
inductive Note.Level
  | error
  | warn
  | info
  | debug
  | trace
deriving DecidableEq, Repr

namespace Note.Level

def rank : Note.Level → Nat
  | error => 0
  | warn => 1
  | info => 2
  | debug => 3
  | trace => 4

/-- The name in lower case, as it is chosen. -/
def name : Note.Level → String
  | error => "error"
  | warn => "warn"
  | info => "info"
  | debug => "debug"
  | trace => "trace"

/-- The name in upper case, as it is shown. -/
def label : Note.Level → String
  | error => "ERROR"
  | warn => "WARN"
  | info => "INFO"
  | debug => "DEBUG"
  | trace => "TRACE"

def all : List Note.Level := [error, warn, info, debug, trace]

def ofName? (name : String) : Option Note.Level := all.find? (·.name = name)

end Note.Level

structure Note where
  level : Note.Level
  text : String
deriving DecidableEq, Repr

namespace Note

/-- The text as it is shown on a terminal. -/
def shown (note : Note) : String := Text.forTerminal note.text

/-- A note on a line of its own, with the level in five columns. -/
def line (note : Note) : String :=
  let label := note.level.label
  "".pushn ' ' (5 - label.length) ++ label ++ " " ++ note.shown ++ "\n"

/-- The notes that matter at least as much as `level`, as text. -/
def log (level : Level) (notes : Array Note) : String :=
  String.join ((notes.toList.filter (·.level.rank ≤ level.rank)).map line)

end Note

end Patchbay
