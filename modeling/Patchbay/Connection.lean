import Patchbay.Expr.Function
import Patchbay.Input
import Patchbay.Output.Basic
import Patchbay.Registry
/-!
# Connections

A connection reads signals of inputs, passes them through a function, and writes the result to a
target of an output.  With one signal and no function the signal is written as it is.
-/

namespace Patchbay

/-- A connection as it is asked for.  A source is a parameter of the function and the binding of a
signal. -/
structure ConnectionSpec where
  sources : List (String × String) := []
  output : Option String := none
  function : Option String := none
deriving DecidableEq, Repr

namespace ConnectionSpec

/-- The path of the values, in bindings. -/
def text (s : ConnectionSpec) : String :=
  let function := match s.function with
    | some body => s!" -> \x7b{body}\x7d"
    | none => ""
  Text.bracketed (s.sources.map Prod.snd) ++ function ++ " -> " ++ s.output.getD "?"

/-- The definition of a function with the sources as parameters. -/
def definition (s : ConnectionSpec) (body : String) : String :=
  "(" ++ ",".intercalate (s.sources.map Prod.fst) ++ ")\x7b" ++ body ++ "\x7d"

/-- The body of the function; a blank one counts as none. -/
def body? (s : ConnectionSpec) : Option String :=
  s.function.filter fun body => Text.trimList body.toList ≠ []

end ConnectionSpec

/-- Splits a binding at its first dot into an alias and a key. -/
def splitBinding (binding : String) : Except ConfigError (String × String) :=
  match Text.cutAt '.' binding.toList with
  | some (name, key) => .ok (Text.trim (.ofList name), Text.trim (.ofList key))
  | none => .error (.malformedBinding binding)

structure Connection where
  label : String
  sources : List (String × Signal)
  function : Option Function
  /-- The output written to. -/
  output : String
  target : Target
deriving DecidableEq

namespace Connection

/-- The signal of a binding. -/
def source (inputs : Registry Input) (binding : String) : Except RigError (String × Signal) := do
  let (name, key) ← (splitBinding binding).mapError .configuration
  match inputs.find? name with
  | none => throw (.configuration (.unknownInput name))
  | some input => return (name, ← (input.find key).mapError .binding)

/-- The target of a binding. -/
def destination (outputs : Registry Output) (binding : String) :
    Except RigError (String × Target) := do
  let (name, key) ← (splitBinding binding).mapError .configuration
  match outputs.find? name with
  | none => throw (.configuration (.unknownOutput name))
  | some output => return (name, ← (output.find key).mapError .binding)

/-- Builds a connection.  Its shape is checked before its bindings, and its function last. -/
def build (inputs : Registry Input) (outputs : Registry Output) (spec : ConnectionSpec) :
    Except RigError Connection := do
  let count := spec.sources.length
  if count = 0 then throw (.configuration .noInput)
  if count > Function.maxArity then
    throw (.configuration (.tooManyInputs Function.maxArity count))
  let some output := spec.output | throw (.configuration .noOutput)
  if count > 1 ∧ spec.body? = none then throw (.configuration .noFunction)
  let sources ← spec.sources.mapM fun (_, binding) => source inputs binding
  let (output, target) ← destination outputs output
  let function ← spec.body?.mapM fun body =>
    (Function.compile count (spec.definition body)).mapError .compile
  return { label := spec.text, sources, function, output, target }

/-- What is noted when a connection has been built. -/
def notes (c : Connection) : List Note :=
  (c.function.map Function.note).toList ++ [⟨.debug, s!"Wired connection {c.label}"⟩]

/-- The present values of the sources. -/
def values (c : Connection) (inputs : Registry Input) : List Float32 :=
  c.sources.map fun (name, signal) =>
    match inputs.find? name with
    | some input => input.read signal
    | none => 0.0

/-- The value that is written. -/
def result (c : Connection) (inputs : Registry Input) : Float32 :=
  match c.function with
  | some f => f.call (c.values inputs)
  | none => (c.values inputs).headD 0.0

/-- Writes the value of the sources to the target. -/
def run (inputs : Registry Input) (outputs : Registry Output) (c : Connection) : Registry Output :=
  outputs.modify c.output fun o => o.write c.target (c.result inputs)

/-- The parts of a connection, for inspection. -/
def describe (c : Connection) : String :=
  s!"Connection \x7b label: {Text.quoted c.label} \x7d"

end Connection

end Patchbay
