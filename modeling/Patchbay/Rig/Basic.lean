import Patchbay.Connection
/-!
# Rigs

Inputs, outputs and the connections between them.  A tick polls the inputs, then runs the
connections, then steps the outputs.  Inputs and outputs take their turns in the order of their
aliases, connections in the order in which they were made.
-/

namespace Patchbay

structure Rig where
  inputs : Registry Input := .empty
  outputs : Registry Output := .empty
  connections : List Connection := []

namespace Rig

/-! ## Building -/

/-- The pins that the rig has. -/
def numbers (r : Rig) : List UInt8 :=
  r.inputs.values.flatMap Input.numbers ++ r.outputs.values.flatMap Output.numbers

/-- Gives all lines back. -/
def release (r : Rig) (b : Bench) : Bench := b.releaseAll r.numbers

/-- Adds an input under a new alias. -/
def addInput (r : Rig) (name : String) (input : Input) : EStateM RigError Bench Rig := do
  if (r.inputs.find? name).isSome then
    modify input.detach
    throw (.configuration (.duplicateInput name))
  modify (·.note .debug s!"Input {name} ({input.kind})")
  return { r with inputs := r.inputs.insert name input }

/-- Adds an output under a new alias. -/
def addOutput (r : Rig) (name : String) (output : Output) : EStateM RigError Bench Rig := do
  if (r.outputs.find? name).isSome then
    modify output.detach
    throw (.configuration (.duplicateOutput name))
  modify (·.note .debug s!"Output {name} ({output.kind})")
  return { r with outputs := r.outputs.insert name output }

/-- Adds a connection. -/
def connect (r : Rig) (spec : ConnectionSpec) : EStateM RigError Bench Rig := do
  match Connection.build r.inputs r.outputs spec with
  | .error cause => throw cause
  | .ok connection =>
    modify fun b => connection.notes.foldl Bench.addNote b
    return { r with connections := r.connections ++ [connection] }

/-! ## Running -/

/-- Polls the inputs, up to the first that fails. -/
def pollInputs (r : Rig) (b : Bench) : Except RigError Unit × Rig × Bench :=
  let (result, inputs, b) := r.inputs.tryPass Input.poll b
  (result, { r with inputs }, b)

/-- Runs the connections. -/
def runConnections (r : Rig) : Rig :=
  { r with outputs := r.connections.foldl (Connection.run r.inputs) r.outputs }

/-- Steps the outputs. -/
def stepOutputs (r : Rig) (b : Bench) : Rig × Bench :=
  let (outputs, b) := r.outputs.pass Output.step b
  ({ r with outputs }, b)

/-- Polls, then connects, then steps.  A failed poll ends the tick at once. -/
def tick (r : Rig) (b : Bench) : Except RigError Unit × Rig × Bench :=
  match r.pollInputs b with
  | (.error cause, r, b) => (.error cause, r, b)
  | (.ok (), r, b) => (.ok (), r.runConnections.stepOutputs b)

/-- The parts of a rig, for inspection. -/
def describe (r : Rig) : String :=
  let inputs := Text.bracketed (r.inputs.aliases.map Text.quoted)
  let outputs := Text.bracketed (r.outputs.aliases.map Text.quoted)
  let connections := Text.bracketed (r.connections.map Connection.describe)
  s!"Rig \x7b inputs: {inputs}, outputs: {outputs}, connections: {connections} \x7d"

end Rig

end Patchbay
