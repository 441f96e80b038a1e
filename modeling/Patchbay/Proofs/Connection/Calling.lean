import Patchbay.Proofs.Connection.Naming
import Patchbay.Proofs.Expr.Calling
import Patchbay.Proofs.Rig.Parts

/-! # Connections at work

A connection has a source for each parameter of its function.  So what it writes is what the
function answers through its cells, whatever these held before, and again in every later tick. -/

namespace Patchbay

/-! ## One connection -/

namespace Connection.Built

variable {inputs : Registry Input} {outputs : Registry Output} {spec : ConnectionSpec}
  {c : Connection} {k : Callable}

theorem length_sources (h : Built inputs outputs spec c) :
    c.sources.length = spec.sources.length :=
  Outcome.length_of_mapM h.sources

/-- The function has a parameter for each source, and refers to no others. -/
theorem function_within (h : Built inputs outputs spec c) {f : Function}
    (hf : c.function = some f) : c.sources.length = f.arity ∧ f.body.Within f.arity := by
  have hcompiles := h.function
  rw [ConnectionSpec.Compiles, hf] at hcompiles
  split at hcompiles
  next => cases hcompiles
  next body _ =>
    obtain ⟨_, ⟨⟩, hcompile⟩ := hcompiles
    obtain ⟨harity, hwithin⟩ := Function.compile_within hcompile
    exact ⟨h.length_sources.trans harity.symm, harity ▸ hwithin⟩

/-- What the connection writes is the answer of its function to the values of the sources, which
then are in the cells. -/
theorem call_values (h : Built inputs outputs spec c) (hk : c.function = some k.function)
    (now : Registry Input) :
    k.call (c.values now) = (some (c.result now), k.load (c.values now)) := by
  obtain ⟨hlength, hwithin⟩ := h.function_within hk
  have hvalues : (c.values now).length = k.function.arity := by
    rw [values, List.length_map, hlength]
  rw [Callable.call_eq hwithin hvalues, result, hk]

/-- The cells go from tick to tick, and what the connection writes is always the answer. -/
theorem answers_values (h : Built inputs outputs spec c) (hk : c.function = some k.function)
    (ticks : List (Registry Input)) :
    (Call.answers (ticks.map fun now => ⟨0, c.values now⟩) [k]).1 =
      ticks.map fun now => some (c.result now) := by
  induction ticks generalizing k with
  | nil => rfl
  | cons now rest ih =>
      have hanswer : Call.answer ⟨0, c.values now⟩ [k] =
          (some (c.result now), [k.load (c.values now)]) := by
        simp only [Call.answer, List.getElem?_cons_zero, h.call_values hk, List.set_cons_zero]
      have hrest := ih (k := k.load (c.values now)) hk
      simp only [List.map_cons, Call.answers, hanswer, hrest]

end Connection.Built

/-! ## All connections of a rig -/

namespace Rig

open Connection (Built)

variable {r r' : Rig} {b b' : Bench}

theorem built_of_extend {specs : List ConnectionSpec} (h : extend connect r specs b = .ok r' b')
    (hr : ∀ c ∈ r.connections, ∃ spec, Built r.inputs r.outputs spec c) :
    ∀ c ∈ r'.connections, ∃ spec, Built r'.inputs r'.outputs spec c := by
  induction specs generalizing r b with
  | nil =>
      cases h
      exact hr
  | cons spec specs ih =>
      obtain ⟨r₁, b₁, hfirst, hrest⟩ := extend_cons_eq_ok_iff.mp h
      obtain ⟨c, hbuild, rfl, -⟩ := connect_eq_ok_iff.mp hfirst
      refine ih hrest fun d hd => ?_
      rcases List.mem_append.mp hd with hold | hnew
      · exact hr d hold
      · cases List.mem_singleton.mp hnew
        exact ⟨spec, .of_build hbuild⟩

theorem built_of_ofConfig {config : RigConfig} (h : ofConfig config b = .ok r b') :
    ∀ c ∈ r.connections, ∃ spec, Built r.inputs r.outputs spec c := by
  obtain ⟨r₁, r₂, specs, b₁, b₂, b₃, hinputs, houtputs, -, hconnections, -⟩ :=
    ofConfig_eq_ok_iff.mp h
  have hnone : r₁.connections = [] := by
    refine extend_keeps connections (fun h => ?_) hinputs
    obtain ⟨input, b₁, -, -, rfl⟩ := buildInput_eq_ok h
    rfl
  have hnone' : r₂.connections = r₁.connections := by
    refine extend_keeps connections (fun h => ?_) houtputs
    obtain ⟨output, b₁, -, -, rfl, -⟩ := buildOutput_eq_ok_iff.mp h
    rfl
  refine built_of_extend hconnections fun c hc => ?_
  rw [hnone', hnone] at hc
  exact absurd hc List.not_mem_nil

/-- In whatever ticks of a built rig, a connection with a function writes what the function answers,
with the cells that the tick before has left. -/
theorem answers_of_ofConfig {config : RigConfig} (h : ofConfig config b = .ok r b')
    {c : Connection} (hc : c ∈ r.connections) {k : Callable} (hk : c.function = some k.function)
    (ticks : List (Registry Input)) :
    (Call.answers (ticks.map fun now => ⟨0, c.values now⟩) [k]).1 =
      ticks.map fun now => some (c.result now) := by
  obtain ⟨spec, hbuilt⟩ := built_of_ofConfig h c hc
  exact hbuilt.answers_values hk ticks

end Rig

end Patchbay
