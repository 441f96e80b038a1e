import Patchbay.Config.Document
import Patchbay.Rig.Basic
/-!
# Building rigs

A rig is built from a configuration as a whole or not at all: when anything fails, every line that
was taken on the way is given back.
-/

namespace Patchbay.Rig

/-- Does something on behalf of a rig, which gives its lines back if that fails. -/
def orRelease {α : Type} (r : Rig) (act : EStateM RigError Bench α) : EStateM RigError Bench α :=
  fun b =>
    match act b with
    | .ok a b => .ok a b
    | .error cause b => .error cause (r.release b)

def buildInput (r : Rig) (name : String) (c : Config.InputConfig) :
    EStateM RigError Bench Rig := do
  let input ← (Input.ofConfig c).adaptExcept (.under ("inputs." ++ name))
  r.addInput name input

def buildOutput (r : Rig) (name : String) (c : Config.OutputConfig) :
    EStateM RigError Bench Rig := do
  let output ← (Output.ofConfig c).adaptExcept (.under ("outputs." ++ name))
  r.addOutput name output

/-- Adds a part after another; when one fails, the rig so far is released. -/
def extend {β : Type} (add : Rig → β → EStateM RigError Bench Rig) (r : Rig) :
    List β → EStateM RigError Bench Rig
  | [] => return r
  | part :: parts => do
    let r ← r.orRelease (add r part)
    extend add r parts

/-- Builds a configured rig: inputs and outputs in the order of their aliases, then connections. -/
def ofConfig (c : RigConfig) : EStateM RigError Bench Rig := do
  let r ← extend (fun r (name, c) => r.buildInput name c) {} c.inputs.entries
  let r ← extend (fun r (name, c) => r.buildOutput name c) r c.outputs.entries
  let specs ← r.orRelease (match c.specs with
    | .ok specs => return specs
    | .error cause => throw (.configuration cause))
  let r ← extend connect r specs
  modify (·.note .info (s!"Rig ready: {r.inputs.size} inputs, {r.outputs.size} outputs, "
    ++ s!"{r.connections.length} connections"))
  return r

end Patchbay.Rig
