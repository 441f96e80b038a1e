import Patchbay.Config.Document
import Patchbay.Proofs.Connection.Addressing
import Patchbay.Proofs.Connection.Writing

/-! # Connections to renamed outputs

When outputs get other aliases and the bindings of connections follow, each connection is built as
before and writes the same values to the same targets. -/

namespace Patchbay

/-! ## Renaming -/

/-- The same key of the output under its other alias. -/
def renameBinding (f : String → String) (text : String) : String :=
  match splitBinding text with
  | .ok (name, key) => binding (f name) key
  | .error _ => text

def ConnectionSpec.rename (f : String → String) (s : ConnectionSpec) : ConnectionSpec :=
  { s with output := s.output.map (renameBinding f) }

def Write.rename (f : String → String) (w : Write) : Write := { w with output := f w.output }

namespace RigConfig

/-- Among the values of a connection, the binding of its output. -/
def renameEntry (f : String → String) : String × Toml.Value → String × Toml.Value
  | ("output", .string s) => ("output", .string (renameBinding f s))
  | entry => entry

/-- The outputs under other aliases, and the connections bound to these. -/
def renameOutputs (f : String → String) (c : RigConfig) : RigConfig :=
  { c with
    outputs := c.outputs.rename f
    connections := c.connections.map (List.map (renameEntry f)) }

variable {f : String → String} {index : Nat} {spec spec' : ConnectionSpec}

theorem renameEntry_of_ne {name : String} (h : name ≠ "output") (v : Toml.Value) :
    renameEntry f (name, v) = (name, v) := by
  unfold renameEntry
  split
  next heq =>
    cases heq
    exact absurd rfl h
  next => rfl

theorem addToSpec_source {name : String} (houtput : name ≠ "output")
    (hfunction : name ≠ "function") (s : String) :
    addToSpec index spec (name, .string s) =
      .ok { spec with sources := spec.sources ++ [(name, s)] } := by
  unfold addToSpec
  split
  next heq =>
    cases heq
    exact absurd rfl houtput
  next heq =>
    cases heq
    exact absurd rfl hfunction
  next heq =>
    cases heq
    rfl
  next hne heq =>
    cases heq
    exact absurd rfl (hne s)

theorem addToSpec_rename {entry : String × Toml.Value}
    (h : addToSpec index spec entry = .ok spec') :
    addToSpec index (spec.rename f) (renameEntry f entry) = .ok (spec'.rename f) := by
  unfold addToSpec at h
  split at h
  next s =>
    cases h
    rfl
  next s =>
    cases h
    rfl
  next name s houtput hfunction =>
    cases h
    rw [renameEntry_of_ne houtput, addToSpec_source houtput hfunction]
    rfl
  next => cases h

theorem foldlM_rename {entries : List (String × Toml.Value)}
    (h : entries.foldlM (addToSpec index) spec = .ok spec') :
    (entries.map (renameEntry f)).foldlM (addToSpec index) (spec.rename f) =
      .ok (spec'.rename f) := by
  induction entries generalizing spec with
  | nil =>
      cases h
      rfl
  | cons entry entries ih =>
      rw [List.foldlM_cons] at h
      obtain ⟨spec₁, hfirst, hrest⟩ := Outcome.bind_eq_ok_iff.mp h
      rw [List.map_cons, List.foldlM_cons]
      exact Outcome.bind_eq_ok_iff.mpr ⟨_, addToSpec_rename hfirst, ih hrest⟩

theorem specs_renameOutputs {c : RigConfig} {specs : List ConnectionSpec}
    (h : c.specs = .ok specs) :
    (c.renameOutputs f).specs = .ok (specs.map (.rename f)) := by
  obtain ⟨period, inputs, outputs, connections⟩ := c
  unfold RigConfig.specs renameOutputs at *
  dsimp only at h ⊢
  generalize 0 = n at h ⊢
  induction connections generalizing n specs with
  | nil =>
      cases h
      rfl
  | cons entries rest ih =>
      obtain ⟨spec, more, hspec, hmore, rfl⟩ := Outcome.mapM_cons_eq_ok_iff.mp h
      exact Outcome.mapM_cons_eq_ok_iff.mpr ⟨_, _, foldlM_rename hspec, ih _ hmore, rfl⟩

end RigConfig

/-! ## Building -/

namespace Connection

variable {inputs : Registry Input} {outputs : Registry Output} {f : String → String}
  {spec : ConnectionSpec} {c : Connection}

theorem destination_rename {text name : String} {target : Target}
    (hf : Set.InjOn f {name | name ∈ outputs.aliases}) (hname : Addressable (f name))
    (h : destination outputs text = .ok (name, target)) :
    destination (outputs.rename f) (renameBinding f text) = .ok (f name, target) := by
  rw [destination_eq_resolve] at h ⊢
  obtain ⟨key, output, hsplit, hfind, htarget⟩ := resolve_eq_ok_iff.mp h
  have htext : renameBinding f text = binding (f name) key := by rw [renameBinding, hsplit]
  rw [htext]
  exact resolve_eq_ok_iff.mpr ⟨_, output, splitBinding_of_addressable hname key,
    Registry.find?_rename hf hfind, Output.find_trim htarget⟩

namespace Built

theorem output_mem (h : Built inputs outputs spec c) : c.output ∈ outputs.aliases := by
  obtain ⟨text, -, hdestination⟩ := h.target
  rw [destination_eq_resolve] at hdestination
  obtain ⟨key, output, -, hfind, -⟩ := resolve_eq_ok_iff.mp hdestination
  exact List.mem_map_of_mem (Registry.find?_eq_some_iff.mp hfind)

/-- A connection to an output under another alias differs in its label only. -/
theorem rename (h : Built inputs outputs spec c)
    (hf : Set.InjOn f {name | name ∈ outputs.aliases}) (hname : Addressable (f c.output)) :
    Built inputs (outputs.rename f) (spec.rename f)
      { c with label := (spec.rename f).text, output := f c.output } := by
  obtain ⟨text, houtput, hdestination⟩ := h.target
  exact {
    some_source := h.some_source
    most_sources := h.most_sources
    some_body := h.some_body
    label := rfl
    sources := h.sources
    target := ⟨renameBinding f text, by rw [ConnectionSpec.rename, houtput]; rfl,
      destination_rename hf hname hdestination⟩
    function := h.function }

end Built

end Connection

end Patchbay
