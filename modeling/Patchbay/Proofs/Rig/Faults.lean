import Patchbay.Proofs.Connection.Resolving
import Patchbay.Proofs.Gamepad.Polling
import Patchbay.Rig.Build
import Patchbay.Scheduler

/-! # Faults of building and of running

What goes wrong while a rig is built is told with the entry that it comes from, or is a fault of the
configuration, of a binding or of a function.  A rig that runs fails with a record of a gamepad,
and with nothing else.  So a fault alone tells whether the rig was running. -/

namespace Patchbay

open Outcome

/-! ## Building -/

/-- Whatever the fault, it shows that it comes from an entry of the configuration. -/
theorem RigError.isBuildTime_under (key : String) (cause : RigError) :
    (cause.under key).isBuildTime = true := by
  cases cause <;> rfl

namespace Connection

variable {inputs : Registry Input} {outputs : Registry Output} {cause : RigError}

theorem isBuildTime_of_function {spec : ConnectionSpec} {count : Nat}
    (h : (spec.body?.mapM fun body => (Function.compile count
      (spec.definition body)).mapError RigError.compile) = .error cause) :
    cause.isBuildTime = true := by
  cases hbody : spec.body? with
  | none =>
      rw [hbody] at h
      exact nomatch h
  | some body =>
      rw [hbody, Option.mapM_some] at h
      rcases bind_eq_error_iff.mp h with hcompile | ⟨f, _, h⟩
      · obtain ⟨first, _, rfl⟩ := mapError_eq_error_iff.mp hcompile
        rfl
      · exact nomatch h

theorem isBuildTime_of_build {spec : ConnectionSpec}
    (h : build inputs outputs spec = .error cause) : cause.isBuildTime = true := by
  simp only [build, bind, Except.bind, pure, Except.pure] at h
  split at h
  · cases h
    rfl
  split at h
  · cases h
    rfl
  split at h
  next output _ =>
    split at h
    · cases h
      rfl
    split at h
    next first hsources =>
      cases h
      obtain ⟨named, _, hsource⟩ := exists_of_mapM_eq_error hsources
      rw [source_eq_resolve] at hsource
      exact isBuildTime_of_resolve hsource
    split at h
    next first hdestination =>
      cases h
      rw [destination_eq_resolve] at hdestination
      exact isBuildTime_of_resolve hdestination
    split at h
    next first hfunction =>
      cases h
      exact isBuildTime_of_function hfunction
    next => exact nomatch h
  next =>
    cases h
    rfl

end Connection

namespace Rig

/-- Faults that a rig can have while it is built. -/
def FailsEarly {α : Type} (act : EStateM RigError Bench α) : Prop :=
  Faults (fun cause => cause.isBuildTime = true) act

variable {r : Rig} {name : String}

theorem failsEarly_addInput (input : Input) : FailsEarly (r.addInput name input) := by
  intro b cause b' h
  unfold addInput at h
  cases hfind : r.inputs.find? name with
  | some old =>
      rw [hfind] at h
      cases h
      rfl
  | none =>
      rw [hfind] at h
      exact nomatch h

theorem failsEarly_addOutput (output : Output) : FailsEarly (r.addOutput name output) := by
  intro b cause b' h
  unfold addOutput at h
  cases hfind : r.outputs.find? name with
  | some old =>
      rw [hfind] at h
      cases h
      rfl
  | none =>
      rw [hfind] at h
      exact nomatch h

theorem failsEarly_buildInput (c : Config.InputConfig) : FailsEarly (r.buildInput name c) :=
  faults_bind (faults_adaptExcept fun _ => RigError.isBuildTime_under ..) failsEarly_addInput

theorem failsEarly_buildOutput (c : Config.OutputConfig) : FailsEarly (r.buildOutput name c) :=
  faults_bind (faults_adaptExcept fun _ => RigError.isBuildTime_under ..) failsEarly_addOutput

theorem failsEarly_connect (spec : ConnectionSpec) : FailsEarly (r.connect spec) := by
  intro b cause b' h
  unfold connect at h
  cases hbuild : Connection.build r.inputs r.outputs spec with
  | error first =>
      rw [hbuild] at h
      cases h
      exact Connection.isBuildTime_of_build hbuild
  | ok c =>
      rw [hbuild] at h
      exact nomatch h

/-- To give the lines back does not change what the fault was. -/
theorem failsEarly_orRelease {α : Type} {act : EStateM RigError Bench α} (h : FailsEarly act) :
    FailsEarly (r.orRelease act) := by
  intro b cause b' hfault
  unfold orRelease at hfault
  split at hfault
  next => exact nomatch hfault
  next first b₁ hfirst =>
    cases hfault
    exact h b cause b₁ hfirst

theorem failsEarly_extend {β : Type} {add : Rig → β → EStateM RigError Bench Rig}
    (hadd : ∀ r part, FailsEarly (add r part)) (parts : List β) :
    FailsEarly (extend add r parts) := by
  induction parts generalizing r with
  | nil => exact faults_pure r
  | cons part parts ih => exact faults_bind (failsEarly_orRelease (hadd r part)) fun _ => ih

theorem failsEarly_ofConfig (c : RigConfig) : FailsEarly (ofConfig c) := by
  unfold ofConfig
  refine faults_bind (failsEarly_extend (fun _ _ => failsEarly_buildInput _) _) fun r₁ => ?_
  refine faults_bind (failsEarly_extend (fun _ _ => failsEarly_buildOutput _) _) fun r₂ => ?_
  refine faults_bind (failsEarly_orRelease ?_) fun specs => ?_
  · cases c.specs with
    | ok specs => exact faults_pure specs
    | error cause =>
        intro b first b' h
        cases h
        rfl
  · refine faults_bind (failsEarly_extend (fun _ => failsEarly_connect) _) fun r₃ => ?_
    exact faults_bind (fun _ _ _ h => nomatch h) fun _ => faults_pure r₃

end Rig

/-! ## Running -/

theorem Registry.exists_of_tryList_eq_error {α σ ε : Type} {f : α → σ → Except ε Unit × α × σ}
    {l : List (String × α)} {s : σ} {cause : ε} (h : (tryList f l s).1 = .error cause) :
    ∃ a t, (f a t).1 = .error cause := by
  induction l generalizing s with
  | nil => exact nomatch h
  | cons entry rest ih =>
      rw [tryList] at h
      split at h
      next first a t hfirst =>
        refine ⟨entry.2, s, ?_⟩
        rw [hfirst]
        exact h
      next => exact ih h

theorem Input.exists_protocol_of_poll {i : Input} {b : Bench} {cause : RigError}
    (h : (i.poll b).1 = .error cause) : ∃ first, cause = .protocol first := by
  cases i with
  | controller c =>
      obtain ⟨first, _, rfl⟩ := mapError_eq_error_iff.mp h
      exact ⟨first, rfl⟩
  | button o => exact nomatch h

/-- Connections and outputs cannot fail. -/
theorem Rig.exists_protocol_of_tick {r : Rig} {b : Bench} {cause : RigError}
    (h : (r.tick b).1 = .error cause) : ∃ first, cause = .protocol first := by
  unfold tick at h
  split at h
  next first r' b' hpoll =>
    have hfault : (r.pollInputs b).1 = .error cause := by
      rw [hpoll]
      exact h
    obtain ⟨i, b₁, hinput⟩ := Registry.exists_of_tryList_eq_error hfault
    exact Input.exists_protocol_of_poll hinput
  next => exact nomatch h

namespace Scheduler

theorem exists_protocol_of_tick {s : Scheduler .running} {busy : Nat} {b : Bench}
    {cause : RigError} (h : (s.tick busy b).1 = .error cause) :
    ∃ first, cause = .protocol first := by
  unfold tick at h
  split at h
  next first rig b' htick =>
    refine Rig.exists_protocol_of_tick (r := s.rig) (b := b) ?_
    rw [htick]
    exact h
  next => exact nomatch h

theorem exists_protocol_of_runUntil {deadline : Nat} {s : Scheduler .running} {b : Bench}
    {cause : RigError} (h : (s.runUntil deadline b).1 = .failed cause) :
    ∃ first, cause = .protocol first := by
  fun_induction runUntil deadline s b with
  | case1 s b hdue => exact nomatch h
  | case2 s b hdue first s' after htick =>
      cases h
      have hfault : (s.tick 0 b).1 = .error cause := by rw [htick]
      exact exists_protocol_of_tick hfault
  | case3 s b hdue s' after htick hlater ih => exact ih h
  | case4 s b hdue s' after htick hlater => exact nomatch h

end Scheduler

/-- A fault tells when it came up: whatever the configuration and the bench, a rig that cannot be
built says so with a fault of building, and whatever its state and what waits for it, a tick of a
rig or of a scheduler that fails, or a run that is given up, says so with a fault of running. -/
theorem RigError.isBuildTime_iff_building :
    (∀ (config : RigConfig) (b b' : Bench) (cause : RigError),
      Rig.ofConfig config b = .error cause b' → cause.isBuildTime = true) ∧
    (∀ (r : Rig) (b : Bench) (cause : RigError),
      (r.tick b).1 = .error cause → cause.isBuildTime = false) ∧
    (∀ (s : Scheduler .running) (busy : Nat) (b : Bench) (cause : RigError),
      (s.tick busy b).1 = .error cause → cause.isBuildTime = false) ∧
    (∀ (s : Scheduler .running) (deadline : Nat) (b : Bench) (cause : RigError),
      (s.runUntil deadline b).1 = .failed cause → cause.isBuildTime = false) := by
  refine ⟨?_, ?_, ?_, ?_⟩
  · exact fun config b b' cause h => Rig.failsEarly_ofConfig config b cause b' h
  · intro r b cause h
    obtain ⟨first, rfl⟩ := Rig.exists_protocol_of_tick h
    rfl
  · intro s busy b cause h
    obtain ⟨first, rfl⟩ := Scheduler.exists_protocol_of_tick h
    rfl
  · intro s deadline b cause h
    obtain ⟨first, rfl⟩ := Scheduler.exists_protocol_of_runUntil h
    rfl

/-- The second button on a pin cannot be built, which is told with its entry; a record of no known
kind stops a rig that runs. -/
theorem RigError.isBuildTime_iff_building_busy_pin_and_bad_record :
    let buttons : RigConfig := { inputs := .ofList [("a", .button 6 false), ("b", .button 6 true)] }
    let rig : Rig := { inputs := .ofList [("pad", .controller { id := "js0" })] }
    let bench : Bench := { waiting := [("js0", [0, 0, 0, 0, 0, 0, 9, 0])] }
    let busy : RigError := .keyed "inputs.b" (.device (.pinBusy 6))
    let unknown : RigError := .protocol (.unknownEventType 9)
    (∃ b, Rig.ofConfig buttons {} = .error busy b) ∧ busy.isBuildTime = true ∧
      (rig.tick bench).1 = .error unknown ∧ unknown.isBuildTime = false := by
  intro buttons rig bench busy unknown
  obtain ⟨hearly, hlate, -, -⟩ := RigError.isBuildTime_iff_building
  obtain ⟨b, hbuild⟩ : ∃ b, Rig.ofConfig buttons {} = .error busy b := ⟨_, rfl⟩
  have hqueue : bench.queue "js0" = [0, 0, 0, 0, 0, 0, 9, 0] := rfl
  have hdecode : Gamepad.Snapshot.decode {} [0, 0, 0, 0, 0, 0, 9, 0] =
      .error (.unknownEventType 9) {} := by cbv
  have hpoll := Gamepad.Controller.poll_of_error (c := { id := "js0" }) (hqueue ▸ hdecode)
  have htick : (rig.tick bench).1 = .error unknown := by
    simp [rig, Rig.tick, Rig.pollInputs, Registry.tryPass, Registry.ofList, Registry.insert,
      Registry.empty, Registry.place, Registry.tryList, Input.poll, hpoll, mapError_error, unknown]
  exact ⟨⟨b, hbuild⟩, hearly _ _ _ _ hbuild, htick, hlate _ _ _ htick⟩

end Patchbay
