import Patchbay.Proofs.Outcome
import Patchbay.Proofs.Registry
import Patchbay.Rig.Build

/-! # The parts of a built rig

A rig is built part by part.  Inputs and outputs come under the aliases that they have in the
configuration, and connections change neither. -/

namespace Patchbay.Rig

/-! ## Part by part -/

section Extend

variable {β κ : Type} {add : Rig → β → EStateM RigError Bench Rig} {r r' : Rig} {b b' : Bench}

theorem extend_cons_eq_ok_iff {part : β} {parts : List β} :
    extend add r (part :: parts) b = .ok r' b' ↔
      ∃ r₁ b₁, add r part b = .ok r₁ b₁ ∧ extend add r₁ parts b₁ = .ok r' b' := by
  rw [extend, Outcome.run_bind_eq_ok_iff]
  unfold orRelease
  cases add r part b <;> simp

/-- What each part adds is there after all parts. -/
theorem extend_perm (view : Rig → List κ) (given : β → List κ)
    (hadd : ∀ {r part b r' b'}, add r part b = .ok r' b' →
      (view r').Perm (given part ++ view r))
    {parts : List β} (h : extend add r parts b = .ok r' b') :
    (view r').Perm (parts.flatMap given ++ view r) := by
  induction parts generalizing r b with
  | nil =>
      cases h
      exact .refl _
  | cons part parts ih =>
      obtain ⟨r₁, b₁, hfirst, hrest⟩ := extend_cons_eq_ok_iff.mp h
      refine (ih hrest).trans (((hadd hfirst).append_left _).trans ?_)
      rw [List.flatMap_cons, ← List.append_assoc]
      exact List.perm_append_comm.append_right _

/-- What adding a part never changes is the same after all. -/
theorem extend_keeps (view : Rig → κ)
    (hadd : ∀ {r part b r' b'}, add r part b = .ok r' b' → view r' = view r)
    {parts : List β} (h : extend add r parts b = .ok r' b') : view r' = view r := by
  induction parts generalizing r b with
  | nil =>
      cases h
      rfl
  | cons part parts ih =>
      obtain ⟨r₁, b₁, hfirst, hrest⟩ := extend_cons_eq_ok_iff.mp h
      exact (ih hrest).trans (hadd hfirst)

end Extend

/-! ## Single parts -/

variable {r r' : Rig} {b b' : Bench} {name : String}

theorem addInput_eq_ok {input : Input} (h : r.addInput name input b = .ok r' b') :
    r.inputs.find? name = none ∧ r' = { r with inputs := r.inputs.insert name input } := by
  unfold addInput at h
  cases hfind : r.inputs.find? name with
  | some old =>
      rw [hfind] at h
      exact nomatch h
  | none =>
      rw [hfind] at h
      cases h
      exact ⟨rfl, rfl⟩

theorem addOutput_eq_ok_iff {output : Output} : r.addOutput name output b = .ok r' b' ↔
    r.outputs.find? name = none ∧ r' = { r with outputs := r.outputs.insert name output } ∧
      b' = b.note .debug s!"Output {name} ({output.kind})" := by
  unfold addOutput
  cases r.outputs.find? name with
  | some old => exact ⟨fun h => (nomatch h), fun h => (nomatch h.1)⟩
  | none =>
      constructor
      · rintro ⟨⟩
        exact ⟨rfl, rfl, rfl⟩
      · rintro ⟨-, rfl, rfl⟩
        rfl

theorem buildInput_eq_ok {c : Config.InputConfig} (h : r.buildInput name c b = .ok r' b') :
    ∃ input b₁, Input.ofConfig c b = .ok input b₁ ∧ r.inputs.find? name = none ∧
      r' = { r with inputs := r.inputs.insert name input } := by
  obtain ⟨input, b₁, hinput, hadd⟩ := Outcome.run_bind_eq_ok_iff.mp h
  exact ⟨input, b₁, Outcome.run_adaptExcept_eq_ok_iff.mp hinput, addInput_eq_ok hadd⟩

theorem buildOutput_eq_ok_iff {c : Config.OutputConfig} : r.buildOutput name c b = .ok r' b' ↔
    ∃ output b₁, Output.ofConfig c b = .ok output b₁ ∧ r.outputs.find? name = none ∧
      r' = { r with outputs := r.outputs.insert name output } ∧
      b' = b₁.note .debug s!"Output {name} ({output.kind})" := by
  unfold buildOutput
  simp only [Outcome.run_bind_eq_ok_iff, Outcome.run_adaptExcept_eq_ok_iff, addOutput_eq_ok_iff]

theorem connect_eq_ok_iff {spec : ConnectionSpec} : r.connect spec b = .ok r' b' ↔
    ∃ c, Connection.build r.inputs r.outputs spec = .ok c ∧
      r' = { r with connections := r.connections ++ [c] } ∧
      b' = c.notes.foldl Bench.addNote b := by
  unfold connect
  cases Connection.build r.inputs r.outputs spec with
  | error cause => exact ⟨fun h => (nomatch h), fun ⟨_, h, _⟩ => (nomatch h)⟩
  | ok c =>
      constructor
      · rintro ⟨⟩
        exact ⟨c, rfl, rfl, rfl⟩
      · rintro ⟨c, ⟨⟩, rfl, rfl⟩
        rfl

/-! ## The whole -/

/-- The steps of a build.  In the end it is noted. -/
theorem ofConfig_eq_ok_iff {config : RigConfig} : ofConfig config b = .ok r b' ↔
    ∃ r₁ r₂ specs b₁ b₂ b₃,
      extend (fun r (name, c) => r.buildInput name c) {} config.inputs.entries b = .ok r₁ b₁ ∧
      extend (fun r (name, c) => r.buildOutput name c) r₁ config.outputs.entries b₁ = .ok r₂ b₂ ∧
      config.specs = .ok specs ∧ extend connect r₂ specs b₂ = .ok r b₃ ∧
      b' = b₃.note .info (s!"Rig ready: {r.inputs.size} inputs, {r.outputs.size} outputs, "
        ++ s!"{r.connections.length} connections") := by
  constructor
  · intro h
    obtain ⟨r₁, b₁, hinputs, h⟩ := Outcome.run_bind_eq_ok_iff.mp h
    obtain ⟨r₂, b₂, houtputs, h⟩ := Outcome.run_bind_eq_ok_iff.mp h
    obtain ⟨specs, b₃, hspecs, h⟩ := Outcome.run_bind_eq_ok_iff.mp h
    obtain ⟨r₃, b₄, hconnections, h⟩ := Outcome.run_bind_eq_ok_iff.mp h
    cases h
    cases hconfig : config.specs with
    | error cause =>
        rw [hconfig] at hspecs
        exact nomatch hspecs
    | ok given =>
        rw [hconfig] at hspecs
        cases hspecs
        exact ⟨r₁, r₂, specs, b₁, b₂, b₄, hinputs, houtputs, rfl, hconnections, rfl⟩
  · rintro ⟨r₁, r₂, specs, b₁, b₂, b₃, hinputs, houtputs, hspecs, hconnections, rfl⟩
    refine Outcome.run_bind_eq_ok_iff.mpr ⟨r₁, b₁, hinputs, ?_⟩
    refine Outcome.run_bind_eq_ok_iff.mpr ⟨r₂, b₂, houtputs, ?_⟩
    refine Outcome.run_bind_eq_ok_iff.mpr ⟨specs, b₂, by rw [hspecs]; rfl, ?_⟩
    exact Outcome.run_bind_eq_ok_iff.mpr ⟨r, b₃, hconnections, rfl⟩

theorem extend_connect_keeps {specs : List ConnectionSpec}
    (h : extend connect r specs b = .ok r' b') :
    r'.inputs = r.inputs ∧ r'.outputs = r.outputs := by
  constructor
  · refine extend_keeps inputs (fun h => ?_) h
    obtain ⟨c, -, rfl, -⟩ := connect_eq_ok_iff.mp h
    rfl
  · refine extend_keeps outputs (fun h => ?_) h
    obtain ⟨c, -, rfl, -⟩ := connect_eq_ok_iff.mp h
    rfl

/-- The inputs of a built rig are those built first, its outputs those built next. -/
theorem exists_of_ofConfig_eq_ok {config : RigConfig} (h : ofConfig config b = .ok r b') :
    ∃ r₁ r₂ b₁ b₂,
      extend (fun r (name, c) => r.buildInput name c) {} config.inputs.entries b = .ok r₁ b₁ ∧
      extend (fun r (name, c) => r.buildOutput name c) r₁ config.outputs.entries b₁ = .ok r₂ b₂ ∧
      r.inputs = r₁.inputs ∧ r₁.outputs = .empty ∧ r.outputs = r₂.outputs := by
  obtain ⟨r₁, r₂, specs, b₁, b₂, b₃, hinputs, houtputs, -, hconnections, -⟩ :=
    ofConfig_eq_ok_iff.mp h
  obtain ⟨hsame, hsame'⟩ := extend_connect_keeps hconnections
  have hkept : r₂.inputs = r₁.inputs := by
    refine extend_keeps inputs (fun h => ?_) houtputs
    obtain ⟨output, b₁, -, -, rfl, -⟩ := buildOutput_eq_ok_iff.mp h
    rfl
  have hnone : r₁.outputs = .empty := by
    refine extend_keeps outputs (fun h => ?_) hinputs
    obtain ⟨input, b₁, -, -, rfl⟩ := buildInput_eq_ok h
    rfl
  exact ⟨r₁, r₂, b₁, b₂, hinputs, houtputs, hsame.trans hkept, hnone, hsame'⟩

/-- Everything is registered under the alias that it has in the configuration, and nothing else. -/
theorem aliases_ofConfig {config : RigConfig} (h : ofConfig config b = .ok r b') :
    r.inputs.aliases = config.inputs.aliases ∧ r.outputs.aliases = config.outputs.aliases := by
  obtain ⟨r₁, r₂, b₁, b₂, hinputs, houtputs, hsame, hnone, hsame'⟩ := exists_of_ofConfig_eq_ok h
  constructor
  · have hperm := extend_perm (fun r => r.inputs.aliases) (fun part => [part.1])
      (fun h => by
        obtain ⟨input, b₁, -, hnew, rfl⟩ := buildInput_eq_ok h
        exact Registry.insert_aliases_perm _ _ hnew) hinputs
    rw [hsame]
    refine Registry.aliases_eq_of_perm ?_
    simpa [Registry.aliases, Registry.empty, List.map_eq_flatMap] using hperm
  · have hperm := extend_perm (fun r => r.outputs.aliases) (fun part => [part.1])
      (fun h => by
        obtain ⟨output, b₁, -, hnew, rfl, -⟩ := buildOutput_eq_ok_iff.mp h
        exact Registry.insert_aliases_perm _ _ hnew) houtputs
    rw [hsame']
    refine Registry.aliases_eq_of_perm ?_
    simpa [hnone, Registry.aliases, Registry.empty, List.map_eq_flatMap] using hperm

end Patchbay.Rig
