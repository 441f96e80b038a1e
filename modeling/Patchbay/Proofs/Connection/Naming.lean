import Patchbay.Proofs.Connection.Definition
import Patchbay.Proofs.Connection.Writing
import Patchbay.Proofs.Expr.Renaming

/-! # Sources by name

A connection's function finds the values of its sources by their names.  So the sources may be given
in any order. -/

namespace Patchbay

open Outcome

/-! ## What a connection is built of -/

namespace ConnectionSpec

/-- The function that is asked for is compiled; without a body there is none. -/
def Compiles (spec : ConnectionSpec) (function : Option Function) : Prop :=
  match spec.body? with
  | none => function = none
  | some body => ∃ f, function = some f ∧
      Function.compile spec.sources.length (spec.definition body) = .ok f

theorem compiles_iff {spec : ConnectionSpec} {function : Option Function} :
    (spec.body?.mapM fun body => (Function.compile spec.sources.length
      (spec.definition body)).mapError RigError.compile) = .ok function ↔
      spec.Compiles function := by
  unfold Compiles
  cases spec.body? with
  | none => exact ⟨fun h => (Except.ok.inj h).symm, fun h => congrArg Except.ok h.symm⟩
  | some body =>
      simp only [Option.mapM_some]
      cases hcompile : Function.compile spec.sources.length (spec.definition body) with
      | error cause => simp [Except.mapError]
      | ok f => simp [Except.mapError, eq_comm]

end ConnectionSpec

namespace Connection

variable {inputs : Registry Input} {outputs : Registry Output} {spec : ConnectionSpec}
  {c : Connection}

/-- As many sources as a function may have, each of them a signal, one target, and a function unless
there is one source only. -/
structure Built (inputs : Registry Input) (outputs : Registry Output) (spec : ConnectionSpec)
    (c : Connection) : Prop where
  some_source : spec.sources.length ≠ 0
  most_sources : spec.sources.length ≤ Function.maxArity
  some_body : ¬ (spec.sources.length > 1 ∧ spec.body? = none)
  label : c.label = spec.text
  sources : spec.sources.mapM (fun named => source inputs named.2) = .ok c.sources
  target : ∃ output, spec.output = some output ∧
    destination outputs output = .ok (c.output, c.target)
  function : spec.Compiles c.function

theorem Built.of_build (h : build inputs outputs spec = .ok c) : Built inputs outputs spec c := by
  simp only [build, bind, Except.bind, pure, Except.pure] at h
  split at h
  · cases h
  next hsome =>
  split at h
  · cases h
  next hmost =>
  split at h
  next output houtput =>
    split at h
    · cases h
    next hbody =>
    split at h
    · cases h
    next sources hsources =>
    split at h
    · cases h
    next target htarget =>
    split at h
    · cases h
    next function hfunction =>
      cases h
      exact ⟨hsome, Nat.not_lt.mp hmost, hbody, rfl, hsources, ⟨output, houtput, htarget⟩,
        ConnectionSpec.compiles_iff.mp hfunction⟩
  · cases h

theorem Built.build_eq (h : Built inputs outputs spec c) : build inputs outputs spec = .ok c := by
  obtain ⟨hsome, hmost, hbody, hlabel, hsources, ⟨output, houtput, htarget⟩, hfunction⟩ := h
  have hcompiled := ConnectionSpec.compiles_iff.mpr hfunction
  simp only [build, hsome, Nat.not_lt.mpr hmost, houtput, hbody, hsources, htarget, hcompiled,
    if_false, bind, Except.bind, pure, Except.pure, ← hlabel]

theorem build_eq_ok_iff : build inputs outputs spec = .ok c ↔ Built inputs outputs spec c :=
  ⟨.of_build, Built.build_eq⟩

/-! ## Sources in another order -/

/-- The names of the sources with their present values. -/
def scope (spec : ConnectionSpec) (c : Connection) (inputs : Registry Input) : Expr.Scope :=
  spec.parameters.zip (c.values inputs)

theorem names_scope (h : c.sources.length = spec.sources.length) (inputs : Registry Input) :
    (scope spec c inputs).names = spec.parameters :=
  List.map_fst_zip (by simp [ConnectionSpec.parameters, values, h])

theorem values_scope (h : c.sources.length = spec.sources.length) (inputs : Registry Input) :
    (scope spec c inputs).values = c.values inputs :=
  List.map_snd_zip (by simp [ConnectionSpec.parameters, values, h])

/-- Names and values move together. -/
theorem scope_perm {spec' : ConnectionSpec} {c' : Connection}
    (h : (spec'.sources.zip c'.sources).Perm (spec.sources.zip c.sources))
    (inputs : Registry Input) : (scope spec' c' inputs).Perm (scope spec c inputs) := by
  unfold scope ConnectionSpec.parameters values
  rw [List.zip_map, List.zip_map]
  exact h.map _

theorem trimList_ne_nil_of_body? {body : String} (h : spec.body? = some body) :
    Text.trimList body.toList ≠ [] := by
  simpa using (Option.filter_eq_some_iff.mp h).2

section Permuted

variable {sources : List (String × String)}

/-- A function of permuted sources reads the same tokens and gives the same value. -/
theorem Built.exists_function_perm (h : Built inputs outputs spec c)
    (hperm : sources.Perm spec.sources) {body : String} (hbody : spec.body? = some body)
    {f : Function} (hf : Function.compile spec.sources.length (spec.definition body) = .ok f)
    (c' : Connection) (hzip : (sources.zip c'.sources).Perm (spec.sources.zip c.sources))
    (hlength : c'.sources.length = sources.length) :
    ∃ f', Function.compile sources.length ({ spec with sources }.definition body) = .ok f' ∧
      ∀ now, f'.call (c'.values now) = f.call (c.values now) := by
  have hblank := trimList_ne_nil_of_body? hbody
  have hsome : spec.sources ≠ [] := fun hnil => h.some_source (by simp [hnil])
  obtain ⟨-, -, hnames, hnodup, tokens, htokens, htree⟩ :=
    (spec.compile_definition_iff body f hsome h.most_sources hblank).1.mp hf
  let spec' := { spec with sources }
  have hparams : spec'.parameters.Perm spec.parameters := hperm.map _
  have hread (now : Registry Input) :
      (Expr.ofTokens spec'.parameters tokens).map (Expr.eval (c'.values now)) =
        .ok (f.body.eval (c.values now)) := by
    have hlength₀ : c.sources.length = spec.sources.length := length_of_mapM h.sources
    have hscope : (scope spec' c' now).Perm (scope spec c now) := scope_perm hzip now
    have hsame := Expr.eval_ofTokens_perm hscope (by rwa [names_scope hlength₀]) tokens
    rw [names_scope hlength₀, values_scope hlength₀, htree, names_scope hlength,
      values_scope hlength] at hsame
    exact hsame
  obtain ⟨tree, htree'⟩ : ∃ tree, Expr.ofTokens spec'.parameters tokens = .ok tree := by
    cases htree' : Expr.ofTokens spec'.parameters tokens with
    | ok tree => exact ⟨tree, rfl⟩
    | error cause =>
        have hfail := hread .empty
        rw [htree'] at hfail
        exact nomatch hfail
  let f' : Function :=
    ⟨sources.length, .ofList (Text.dropBlanks (spec'.definition body).toList), tree⟩
  refine ⟨f', ?_, fun now => ?_⟩
  · refine (spec'.compile_definition_iff body f' ?_ ?_ hblank).1.mpr ⟨rfl, rfl, ?_, ?_, tokens,
      htokens, htree'⟩
    · intro hnil
      rw [show sources = [] from hnil] at hperm
      exact hsome hperm.nil_eq.symm
    · exact hperm.length_eq ▸ h.most_sources
    · exact fun name hname => hnames name (hparams.subset hname)
    · exact hparams.nodup_iff.mpr hnodup
  · have hvalue := hread now
    rw [htree'] at hvalue
    exact Except.ok.inj hvalue

/-- Permuted sources make a connection with the same target and the same value. -/
theorem Built.exists_perm (h : Built inputs outputs spec c) (hperm : sources.Perm spec.sources) :
    ∃ c', Built inputs outputs { spec with sources } c' ∧ ∀ now, c'.write now = c.write now := by
  obtain ⟨signals, hsignals, hzip⟩ := exists_mapM_perm hperm h.sources
  have hcount := hperm.length_eq
  cases hbody : spec.body? with
  | none =>
      -- Without a function there is one source.
      obtain ⟨named, hone⟩ : ∃ named, spec.sources = [named] := by
        have hle : ¬ spec.sources.length > 1 := fun hlt => h.some_body ⟨hlt, hbody⟩
        have hne := h.some_source
        exact List.length_eq_one_iff.mp (by omega)
      obtain rfl : sources = spec.sources := by
        rw [hone] at hperm ⊢
        exact List.perm_singleton.mp hperm
      exact ⟨c, h, fun _ => rfl⟩
  | some body =>
      have hfunction := h.function
      simp only [ConnectionSpec.Compiles, hbody] at hfunction
      obtain ⟨f, hf, hcompile⟩ := hfunction
      let bare : Connection :=
        { label := { spec with sources }.text, sources := signals, function := none
          output := c.output, target := c.target }
      obtain ⟨f', hcompile', hsame⟩ := h.exists_function_perm hperm hbody hcompile
        bare hzip (length_of_mapM hsignals)
      refine ⟨{ bare with function := some f' }, ⟨?_, ?_, ?_, rfl, hsignals, h.target, ?_⟩,
        fun now => ?_⟩
      · exact hcount ▸ h.some_source
      · exact hcount ▸ h.most_sources
      · exact fun hnone => h.some_body ⟨hcount ▸ hnone.1, hnone.2⟩
      · have hbody' : ({ spec with sources } : ConnectionSpec).body? = some body := hbody
        simp only [ConnectionSpec.Compiles, hbody']
        exact ⟨f', rfl, hcompile'⟩
      · simp only [write, result, hf, bare]
        rw [← hsame now]
        rfl

/-- The sources of a connection may be given in any order, each name with its binding: the
connection can be built in any of them or in none, and whatever state the inputs are in, it writes
the same value to the same target. -/
theorem build_permuted (inputs : Registry Input) (outputs : Registry Output)
    (spec : ConnectionSpec) (sources : List (String × String))
    (hperm : sources.Perm spec.sources) :
    ((∃ c, build inputs outputs { spec with sources } = .ok c) ↔
      ∃ c, build inputs outputs spec = .ok c) ∧
    ∀ c c', build inputs outputs spec = .ok c →
      build inputs outputs { spec with sources } = .ok c' →
      ∀ now, c'.write now = c.write now := by
  constructor
  · constructor
    · rintro ⟨c, hc⟩
      obtain ⟨c', hbuilt, _⟩ := (build_eq_ok_iff.mp hc).exists_perm hperm.symm
      exact ⟨c', hbuilt.build_eq⟩
    · rintro ⟨c, hc⟩
      obtain ⟨c', hbuilt, _⟩ := (build_eq_ok_iff.mp hc).exists_perm hperm
      exact ⟨c', hbuilt.build_eq⟩
  · intro c c' hc hc' now
    obtain ⟨c₁, hbuilt, hsame⟩ := (build_eq_ok_iff.mp hc).exists_perm hperm
    obtain rfl : c₁ = c' := Except.ok.inj (hbuilt.build_eq.symm.trans hc')
    exact hsame now

/-- `b-a/c` of three sources in another order: each value still goes where its name stands. -/
theorem build_permuted_three_sources :
    let knob (down : Bool) : Input := .button ⟨⟨{ number := 6 }⟩, false, down, down⟩
    let inputs : Registry Input := .ofList [("off", knob false), ("on", knob true),
      ("pad", .controller { id := "js0", snapshot := { leftX := -32767 } })]
    let outputs : Registry Output := .ofList [("arm", .constant (.make ⟨.ms18, [], 0.0⟩ 0.0))]
    let spec : ConnectionSpec :=
      { sources := [("a", "on.value"), ("b", "off.value"), ("c", "pad.ljoy.x")]
        output := some "arm.value", function := some "b-a/c" }
    let sources := [("c", "pad.ljoy.x"), ("b", "off.value"), ("a", "on.value")]
    sources.Perm spec.sources ∧ ∃ c, build inputs outputs { spec with sources } = .ok c ∧
      c.write inputs = ⟨"arm", .value, 1.0⟩ := by
  intro knob inputs outputs spec sources
  have hperm : sources.Perm spec.sources := by decide
  let f : Function := ⟨3, "(a,b,c)\x7bb-a/c\x7d",
    .binary .sub (.argument 1) (.binary .div (.argument 0) (.argument 2))⟩
  have hcompile : Function.compile 3 (spec.definition "b-a/c") = .ok f := by decide +kernel
  let c : Connection :=
    { label := spec.text
      sources := [("on", .value), ("off", .value), ("pad", .control (.stick .left .x))]
      function := some f
      output := "arm", target := .value }
  have hc : build inputs outputs spec = .ok c :=
    build_eq_ok_iff.mpr ⟨by decide, by decide, by decide, rfl, rfl, ⟨_, rfl, rfl⟩, _, rfl, hcompile⟩
  obtain ⟨hboth, hsame⟩ := build_permuted inputs outputs spec sources hperm
  obtain ⟨c', hc'⟩ := hboth.mpr ⟨c, hc⟩
  refine ⟨hperm, c', hc', ?_⟩
  rw [hsame c c' hc hc' inputs]
  decide +kernel

end Permuted

end Connection

end Patchbay
