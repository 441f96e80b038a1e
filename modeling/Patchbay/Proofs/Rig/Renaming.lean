import Patchbay.Proofs.Connection.Readdressing
import Patchbay.Proofs.Rig.Build
import Patchbay.Proofs.Rig.Hearing
import Patchbay.Proofs.Rig.Reordering
import Patchbay.Proofs.Rig.Turns

/-! # Rigs with renamed outputs

Outputs may be given other aliases, as long as no two get the same and bindings can name them all.
They may then be built and stepped in another order, but all lines are driven as before. -/

namespace Patchbay

open Bench (SameAt)

variable {b b' b₁ : Bench}

/-! ## Writes -/

section Writes

variable {f : String → String} {outputs : Registry Output}

theorem aliases_foldl_run (ws : List Write) (outputs : Registry Output) :
    (ws.foldl Write.run outputs).aliases = outputs.aliases := by
  induction ws generalizing outputs with
  | nil => rfl
  | cons w ws ih => exact (ih _).trans (Registry.aliases_modify ..)

theorem Registry.Apart.foldl_run (h : outputs.Apart) (ws : List Write) :
    (ws.foldl Write.run outputs).Apart := by
  induction ws generalizing outputs with
  | nil => exact h
  | cons w ws ih => exact ih (h.modify ..)

theorem foldl_run_rename (hf : Set.InjOn f {name | name ∈ outputs.aliases}) {ws : List Write}
    (hknown : ∀ w ∈ ws, w.output ∈ outputs.aliases) :
    (ws.map (Write.rename f)).foldl Write.run (outputs.rename f) =
      (ws.foldl Write.run outputs).rename f := by
  induction ws generalizing outputs with
  | nil => rfl
  | cons w ws ih =>
      have haliases : (w.run outputs).aliases = outputs.aliases := Registry.aliases_modify ..
      have hfirst : (w.rename f).run (outputs.rename f) = (w.run outputs).rename f :=
        Registry.modify_rename hf (hknown w List.mem_cons_self) _
      rw [List.map_cons, List.foldl_cons, List.foldl_cons, hfirst]
      exact ih (by rwa [haliases]) fun v hv => haliases ▸ hknown v (List.mem_cons_of_mem _ hv)

end Writes

namespace Rig

/-! ## Renamed rigs -/

/-- The same rig but for the aliases of its outputs, of which no two share a pin. -/
structure Renamed (f : String → String) (r r' : Rig) : Prop where
  injOn : Set.InjOn f {name | name ∈ r.outputs.aliases}
  apart : r.outputs.Apart
  known : ∀ c ∈ r.connections, c.output ∈ r.outputs.aliases
  inputs : r'.inputs = r.inputs
  outputs : r'.outputs = r.outputs.rename f
  writes : ∀ inputs, r'.connections.map (Connection.write inputs) =
    (r.connections.map (Connection.write inputs)).map (Write.rename f)

namespace Renamed

variable {f : String → String} {r r' r₁ : Rig}

theorem withInputs (h : Renamed f r r') (inputs : Registry Input) :
    Renamed f { r with inputs } { r' with inputs } :=
  ⟨h.injOn, h.apart, h.known, rfl, h.outputs, h.writes⟩

theorem runConnections (h : Renamed f r r') : Renamed f r.runConnections r'.runConnections := by
  have haliases : r.runConnections.outputs.aliases = r.outputs.aliases := by
    rw [runConnections_eq]
    exact aliases_foldl_run ..
  have hknown : ∀ w ∈ r.connections.map (Connection.write r.inputs),
      w.output ∈ r.outputs.aliases := by
    intro w hw
    obtain ⟨c, hc, rfl⟩ := List.mem_map.mp hw
    exact h.known c hc
  exact {
    injOn := by rw [haliases]; exact h.injOn
    apart := by rw [runConnections_eq]; exact h.apart.foldl_run _
    known := by rw [haliases]; exact h.known
    inputs := h.inputs
    outputs := by
      rw [runConnections_eq, runConnections_eq, h.inputs, h.outputs, h.writes,
        foldl_run_rename h.injOn hknown]
    writes := h.writes }

theorem stepOutputs (h : Renamed f r r') (hb : SameAt .univ b b') :
    Renamed f (r.stepOutputs b).1 (r'.stepOutputs b').1 ∧
      SameAt .univ (r.stepOutputs b).2 (r'.stepOutputs b').2 := by
  have haliases : (r.outputs.pass Output.step b).1.aliases = r.outputs.aliases :=
    Registry.aliases_passList ..
  obtain ⟨houtputs, hb₁⟩ := Registry.pass_rename h.injOn h.apart hb
  rw [← h.outputs] at houtputs hb₁
  exact ⟨{
    injOn := haliases ▸ h.injOn
    apart := h.apart.pass b
    known := haliases ▸ h.known
    inputs := h.inputs
    outputs := houtputs
    writes := h.writes }, hb₁⟩

theorem tick (h : Renamed f r r') (hb : SameAt .univ b b') {result : Except RigError Unit}
    (htick : r.tick b = (result, r₁, b₁)) :
    ∃ r₁' b₁', r'.tick b' = (result, r₁', b₁') ∧ Renamed f r₁ r₁' ∧ SameAt .univ b₁ b₁' := by
  rcases hpoll : r.pollInputs b with ⟨polled, r₂, b₂⟩
  obtain ⟨inputs, hpass, rfl⟩ := pollInputs_eq_iff.mp hpoll
  obtain ⟨c, hlist, hc⟩ := tryList_poll_same (Registry.tryPass_eq_iff.mp hpass) hb
  have hpoll' : r'.pollInputs b' = (polled, { r' with inputs }, c) := by
    refine pollInputs_eq_iff.mpr ⟨inputs, Registry.tryPass_eq_iff.mpr ?_, rfl⟩
    rwa [h.inputs]
  have hpolled := h.withInputs inputs
  rw [Rig.tick, hpoll] at htick
  rw [Rig.tick, hpoll']
  cases polled with
  | error cause =>
      cases htick
      exact ⟨_, c, rfl, hpolled, hc⟩
  | ok _ =>
      cases htick
      obtain ⟨hrenamed, hb₁⟩ := hpolled.runConnections.stepOutputs hc
      exact ⟨_, _, rfl, hrenamed, hb₁⟩

theorem play (h : Renamed f r r') (hb : SameAt .univ b b') (moves : List Move) :
    (r'.play b' moves).1 = (r.play b moves).1 ∧
      SameAt .univ (r.play b moves).2.2 (r'.play b' moves).2.2 := by
  induction moves generalizing r r' b b' with
  | nil => exact ⟨rfl, hb⟩
  | cons move moves ih =>
      cases move with
      | arrive a => exact ih h (hb.receive a)
      | wait span => exact ih h (hb.advance span)
      | tick =>
          rcases htick : r.tick b with ⟨result, r₁, b₁⟩
          obtain ⟨r₁', b₁', htick', h₁, hb₁⟩ := h.tick hb htick
          rw [Rig.play, Rig.play, htick, htick']
          cases result with
          | error cause => exact ⟨rfl, hb₁⟩
          | ok _ => exact ih h₁ hb₁

/-! ## Building -/

theorem connect (h : Renamed f r r') (hb : SameAt .univ b b')
    (hnames : ∀ name ∈ r.outputs.aliases, Addressable (f name)) {spec : ConnectionSpec}
    (hconnect : r.connect spec b = .ok r₁ b₁) :
    ∃ r₁' b₁', r'.connect (spec.rename f) b' = .ok r₁' b₁' ∧ Renamed f r₁ r₁' ∧
      SameAt .univ b₁ b₁' := by
  obtain ⟨c, hbuild, rfl, rfl⟩ := connect_eq_ok_iff.mp hconnect
  have hbuilt := Connection.build_eq_ok_iff.mp hbuild
  let c' : Connection := { c with label := (spec.rename f).text, output := f c.output }
  have hbuild' : Connection.build r'.inputs r'.outputs (spec.rename f) = .ok c' := by
    rw [h.inputs, h.outputs]
    exact (hbuilt.rename h.injOn (hnames _ hbuilt.output_mem)).build_eq
  refine ⟨_, _, connect_eq_ok_iff.mpr ⟨c', hbuild', rfl, rfl⟩, ?_,
    (SameAt.foldl_addNote _ b).symm.trans (hb.trans (.foldl_addNote _ b'))⟩
  exact {
    injOn := h.injOn
    apart := h.apart
    known := fun d hd => by
      rcases List.mem_append.mp hd with hd | hd
      · exact h.known d hd
      · rw [List.mem_singleton.mp hd]
        exact hbuilt.output_mem
    inputs := h.inputs
    outputs := h.outputs
    writes := fun inputs => by
      rw [List.map_append, List.map_append, List.map_append, h.writes]
      rfl }

theorem extend_connect (h : Renamed f r r') (hb : SameAt .univ b b')
    (hnames : ∀ name ∈ r.outputs.aliases, Addressable (f name)) {specs : List ConnectionSpec}
    (hextend : extend Rig.connect r specs b = .ok r₁ b₁) :
    ∃ r₁' b₁', extend Rig.connect r' (specs.map (.rename f)) b' = .ok r₁' b₁' ∧
      Renamed f r₁ r₁' ∧ SameAt .univ b₁ b₁' := by
  induction specs generalizing r r' b b' with
  | nil =>
      cases hextend
      exact ⟨r', b', rfl, h, hb⟩
  | cons spec specs ih =>
      obtain ⟨r₂, b₂, hfirst, hrest⟩ := extend_cons_eq_ok_iff.mp hextend
      obtain ⟨r₂', b₂', hfirst', h₂, hb₂⟩ := h.connect hb hnames hfirst
      have hsame : r₂.outputs = r.outputs := by
        obtain ⟨c, -, rfl, -⟩ := connect_eq_ok_iff.mp hfirst
        rfl
      obtain ⟨r₁', b₁', hrest', h₁, hb₁⟩ := ih h₂ hb₂ (hsame ▸ hnames) hrest
      exact ⟨r₁', b₁', extend_cons_eq_ok_iff.mpr ⟨_, _, hfirst', hrest'⟩, h₁, hb₁⟩

end Renamed

section Build

variable {config : RigConfig} {r : Rig} {b₀ : Bench} {f : String → String}

theorem pairwise_of_nodup_flatMap {α β : Type} {g : α → List β} {l : List α}
    (h : (l.flatMap g).Nodup) : (l.map g).Pairwise List.Disjoint :=
  List.pairwise_map.mpr (List.nodup_flatMap.mp h).2

/-- No two outputs of a built rig share a pin, as none were configured to. -/
theorem apart_of_ofConfig (h : ofConfig config b₀ = .ok r b) :
    (config.outputs.entries.map fun entry => entry.2.pins).Pairwise List.Disjoint ∧
      r.outputs.Apart := by
  have hattempt := ofConfig_attempt config b₀
  rw [h] at hattempt
  cases hattempt with
  | ok hperm htakes =>
      have hpins : config.pins.Nodup := htakes.nodup
      have hnumbers : r.numbers.Nodup := hperm.nodup_iff.mpr hpins
      refine ⟨pairwise_of_nodup_flatMap (List.nodup_append.mp hpins).2.1, ?_⟩
      have houtputs := (List.nodup_append.mp hnumbers).2.1
      rw [Registry.values, List.flatMap_map] at houtputs
      exact pairwise_of_nodup_flatMap houtputs

/-- Outputs that were built under other aliases are the same outputs. -/
theorem renamed_withOutputs {done done' : List (String × Output)} (hempty : r.outputs = .empty)
    (hnone : r.connections = []) (hperm : done'.Perm (done.map (Prod.map f id)))
    (hnodup : (done.map Prod.fst).Nodup) (hnodup' : (done'.map Prod.fst).Nodup)
    (hf : Set.InjOn f {name | name ∈ (r.withOutputs done).outputs.aliases})
    (hapart : (r.withOutputs done).outputs.Apart) :
    Renamed f (r.withOutputs done) (r.withOutputs done') := by
  have hdone : ∀ done, (r.withOutputs done).outputs = .ofList done := by
    intro done
    rw [withOutputs, hempty]
    rfl
  exact {
    injOn := hf
    apart := hapart
    known := fun c hc => by
      rw [show (r.withOutputs done).connections = [] from hnone] at hc
      exact nomatch hc
    inputs := rfl
    outputs := by
      refine Registry.eq_of_perm (.trans ?_ (Registry.entries_rename_perm hf).symm)
      rw [hdone, hdone]
      exact (Registry.entries_ofList_perm hnodup').trans
        (hperm.trans ((Registry.entries_ofList_perm hnodup).symm.map _))
    writes := fun inputs => by
      rw [show (r.withOutputs done).connections = [] from hnone,
        show (r.withOutputs done').connections = [] from hnone]
      rfl }

/-- Whatever can be built can be built with its outputs renamed. -/
theorem exists_ofConfig_renameOutputs (h : ofConfig config b₀ = .ok r b)
    (hf : Set.InjOn f {name | name ∈ config.outputs.aliases})
    (hnames : ∀ name ∈ config.outputs.aliases, Addressable (f name)) :
    ∃ r' b', ofConfig (config.renameOutputs f) b₀ = .ok r' b' ∧ Renamed f r r' ∧
      SameAt .univ b b' := by
  obtain ⟨hpins, hapart⟩ := apart_of_ofConfig h
  obtain ⟨-, haliases⟩ := aliases_ofConfig h
  obtain ⟨r₁, r₂, specs, b₁, b₂, b₃, hinputs, houtputs, hspecs, hconnections, rfl⟩ :=
    ofConfig_eq_ok_iff.mp h
  have hstart : (r₁.outputs, r₁.connections) = (.empty, []) := by
    refine extend_keeps (fun r => (r.outputs, r.connections)) (fun h => ?_) hinputs
    obtain ⟨input, b₁, -, -, rfl⟩ := buildInput_eq_ok h
    rfl
  obtain ⟨hempty, hnone⟩ := Prod.mk.inj hstart
  -- The outputs are the same, maybe built in another order.
  obtain ⟨done, c, hruns, hc, rfl⟩ := runs_of_extend houtputs
  obtain ⟨done', c', hruns', hperm, hc'⟩ := hruns.renamed Output.local_ofConfig
    (Registry.entries_rename_perm hf) hpins (.refl _ b₁)
  have hnodup' := (config.outputs.rename f).nodup_aliases
  obtain ⟨c₂, houtputs', hc₂⟩ := exists_extend_of_runs (r := r₁) hruns' (.refl _ b₁) hnodup'
    fun name _ hmem => by
      rw [hempty] at hmem
      exact nomatch hmem
  rw [(extend_connect_keeps hconnections).2] at haliases hapart
  have hnodup : (done.map Prod.fst).Nodup := hruns.aliases ▸ config.outputs.nodup_aliases
  have hrenamed := renamed_withOutputs hempty hnone hperm hnodup (hruns'.aliases ▸ hnodup')
    (haliases ▸ hf) hapart
  have hb₂ : SameAt .univ b₂ c₂ := hc.symm.trans (hc'.trans hc₂)
  obtain ⟨r', b', hconnections', hr', hb'⟩ :=
    hrenamed.extend_connect hb₂ (haliases ▸ hnames) hconnections
  refine ⟨r', _, ofConfig_eq_ok_iff.mpr ⟨r₁, _, _, b₁, c₂, b', hinputs, houtputs',
    RigConfig.specs_renameOutputs hspecs, hconnections', rfl⟩, hr', hb'.journals _ _⟩

end Build

/-! ## Runs -/

section Runs

variable {config : RigConfig} {r : Rig} {b₀ : Bench} {f : String → String}

/-- A configuration that builds also builds when its outputs get other aliases, no two the same and
all such that bindings can name them, and its connections follow.  From the start and through every
run of arrivals, waits and ticks, all lines of the two rigs have been driven alike and as often, and
they fail alike. -/
theorem lines_kept_by_renaming (h : ofConfig config b₀ = .ok r b)
    (hf : Set.InjOn f {name | name ∈ config.outputs.aliases})
    (hnames : ∀ name ∈ config.outputs.aliases, Addressable (f name)) :
    ∃ r' b', ofConfig (config.renameOutputs f) b₀ = .ok r' b' ∧
      r'.outputs.aliases.Perm (config.outputs.aliases.map f) ∧ b'.line = b.line ∧
      ∀ moves, (r'.play b' moves).1 = (r.play b moves).1 ∧
        (r'.play b' moves).2.2.line = (r.play b moves).2.2.line := by
  obtain ⟨r', b', hbuilt, hrenamed, hb⟩ := exists_ofConfig_renameOutputs h hf hnames
  refine ⟨r', b', hbuilt, ?_, funext fun pin => hb.line pin trivial, fun moves => ?_⟩
  · rw [hrenamed.outputs, ← (aliases_ofConfig h).2]
    exact Registry.aliases_rename_perm hrenamed.injOn
  · obtain ⟨hresult, hlines⟩ := hrenamed.play hb moves
    exact ⟨hresult, funext fun pin => hlines.line pin trivial⟩

/-- A motor that a button turns is built and stepped before a light, and under its other alias after
it. -/
theorem lines_kept_by_renaming_motor_after_led :
    let config : RigConfig :=
      { inputs := .ofList [("knob", .button 6 false)]
        outputs := .ofList [("arm", .motor { name := "ms18", pin := some 5, value := 0.0 }),
          ("led", .light { name := "dual-color led", pins := [3, 4], mode := .solid })]
        connections := [[("v", .string "knob.value"), ("output", .string "arm.value")]] }
    let f (name : String) : String := if name = "arm" then "wing" else name
    let moves : List Move := [.tick, .arrive (.level 6 false), .wait 20, .tick]
    ∃ r' b', ofConfig (config.renameOutputs f) {} = .ok r' b' ∧
      r'.outputs.aliases = ["led", "wing"] ∧
      ((r'.play b' moves).2.2.line 5).last = some (.pulse 2500) ∧
      ((r'.play b' moves).2.2.line 5).writes = 3 := by
  intro config f moves
  obtain ⟨r, b, hbuilt, hlast, hwrites⟩ : ∃ r b, ofConfig config {} = .ok r b ∧
      ((r.play b moves).2.2.line 5).last = some (.pulse 2500) ∧
      ((r.play b moves).2.2.line 5).writes = 3 :=
    ⟨_, _, rfl, by decide +kernel, by decide +kernel⟩
  have hf : ∀ name ∈ config.outputs.aliases, ∀ other ∈ config.outputs.aliases,
      f name = f other → name = other := by decide
  obtain ⟨r', b', hbuilt', -, -, hplay⟩ := lines_kept_by_renaming (f := f) hbuilt
    (fun name hname other hother => hf name hname other hother) (by decide)
  refine ⟨r', b', hbuilt', ?_, ?_, ?_⟩
  · rw [(aliases_ofConfig hbuilt').2]
    decide
  · rw [(hplay moves).2]
    exact hlast
  · rw [(hplay moves).2]
    exact hwrites

end Runs

end Rig

end Patchbay
