import Patchbay.Proofs.Registry
import Patchbay.Proofs.Rig.Devices
import Patchbay.Rig.Build

/-! # All pins or none

While a rig is being built, what has been taken since the start is what the rig so far has.  A fault
gives that back, so a build ends with all configured pins or with none. -/

namespace Patchbay

open Bench (Takes Restores)

/-- The pins that a configuration mentions. -/
def RigConfig.pins (c : RigConfig) : List UInt8 :=
  c.inputs.entries.flatMap (fun entry => entry.2.pins)
    ++ c.outputs.entries.flatMap (fun entry => entry.2.pins)

namespace Rig

/-- A rig that has the pins of `r` and some more. -/
def Extends (r : Rig) (pins : List UInt8) (r' : Rig) : Prop :=
  r'.numbers.Perm (r.numbers ++ pins)

theorem extends_nil {r r' : Rig} (h : r'.numbers = r.numbers) : r.Extends [] r' := by
  rw [Extends, h, List.append_nil]

/-! ## Single parts -/

theorem addInput_attempt (r : Rig) (name : String) {input : Input} {pins : List UInt8}
    {b₀ b : Bench} (hn : input.numbers = pins) (ht : Takes pins b₀ b) :
    Attempt pins (r.Extends pins) b₀ (r.addInput name input b) := by
  subst hn
  unfold addInput
  cases hf : r.inputs.find? name with
  | some old => exact .error ht.undo_all
  | none =>
      refine .ok ?_ (ht.then_lines (Bench.line_note ..))
      have hvalues := (r.inputs.insert_values_perm input hf).flatMap_right Input.numbers
      refine (hvalues.append_right _).trans ?_
      rw [List.flatMap_cons, List.append_assoc]
      exact List.perm_append_comm

theorem addOutput_attempt (r : Rig) (name : String) {output : Output} {pins : List UInt8}
    {b₀ b : Bench} (hn : output.numbers = pins) (ht : Takes pins b₀ b) :
    Attempt pins (r.Extends pins) b₀ (r.addOutput name output b) := by
  subst hn
  unfold addOutput
  cases hf : r.outputs.find? name with
  | some old => exact .error ht.undo_all
  | none =>
      refine .ok ?_ (ht.then_lines (Bench.line_note ..))
      have hvalues := (r.outputs.insert_values_perm output hf).flatMap_right Output.numbers
      refine (hvalues.append_left _).trans ?_
      rw [List.flatMap_cons]
      change List.Perm _ ((_ ++ _) ++ _)
      rw [List.append_assoc]
      exact List.perm_append_comm.append_left _

/-- Adding a part takes its pins for the rig. -/
def Adds {β : Type} (add : Rig → β → EStateM RigError Bench Rig) (pins : β → List UInt8) : Prop :=
  ∀ r part b, Attempt (pins part) (r.Extends (pins part)) b (add r part b)

theorem buildInput_adds :
    Adds (fun r (name, c) => r.buildInput name c) fun entry => entry.2.pins := by
  intro r entry b
  refine (Input.ofConfig_attempt entry.2 b).adaptExcept.bind_more (List.Subset.refl _) ?_
  exact fun input b₁ hi ht => addInput_attempt r entry.1 hi ht

theorem buildOutput_adds :
    Adds (fun r (name, c) => r.buildOutput name c) fun entry => entry.2.pins := by
  intro r entry b
  refine (Output.ofConfig_attempt entry.2 b).adaptExcept.bind_more (List.Subset.refl _) ?_
  exact fun output b₁ ho ht => addOutput_attempt r entry.1 ho ht

theorem connect_adds : Adds connect fun _ => [] := by
  intro r spec b
  unfold connect
  cases Connection.build r.inputs r.outputs spec with
  | error cause => exact .of_throw cause
  | ok connection => exact .ok (extends_nil rfl) (.nil (Bench.line_foldl_addNote ..))

/-! ## The whole -/

section

variable {α β : Type} {pins : List UInt8} {Q : α → Prop} {r : Rig} {b₀ b : Bench}

/-- What is done on behalf of a rig takes its own pins in addition, or undoes the rig. -/
theorem orRelease_attempt {act : EStateM RigError Bench α} (ht : Takes r.numbers b₀ b)
    (ha : Attempt pins Q b (act b)) :
    Attempt (r.numbers ++ pins) Q b₀ (r.orRelease act b) := by
  unfold orRelease
  generalize act b = result at ha
  cases ha with
  | ok hQ ht' => exact .ok hQ (ht.append ht')
  | error hr => exact .error (ht.undo hr)

/-- What takes no pins leaves the rig as it is, or undoes it. -/
theorem orRelease_attempt_nil {act : EStateM RigError Bench α} (ht : Takes r.numbers b₀ b)
    (ha : Attempt [] Q b (act b)) : Attempt r.numbers Q b₀ (r.orRelease act b) := by
  simpa using orRelease_attempt ht ha

/-- When the pins of the rig so far are what was taken since `b₀`, so they are after more parts. -/
theorem extend_attempt {add : Rig → β → EStateM RigError Bench Rig} {pins : β → List UInt8}
    (hadd : Adds add pins) (parts : List β) (ht : Takes r.numbers b₀ b) :
    Attempt (r.numbers ++ parts.flatMap pins) (r.Extends (parts.flatMap pins)) b₀
      (extend add r parts b) := by
  induction parts generalizing r b with
  | nil =>
      rw [List.flatMap_nil, List.append_nil]
      exact .ok (extends_nil rfl) ht
  | cons part parts ih =>
      rw [List.flatMap_cons, ← List.append_assoc]
      refine (orRelease_attempt ht (hadd r part b)).bind_more (List.subset_append_left ..) ?_
      intro r' b₁ hr' ht'
      have hall := hr'.append_right (parts.flatMap pins)
      refine ((ih (ht'.perm hr'.symm)).perm hall).imp fun r'' hr'' => ?_
      rw [Extends, ← List.append_assoc]
      exact hr''.trans hall

/-- Connections have no pins of their own. -/
theorem extend_connect_attempt (specs : List ConnectionSpec) (ht : Takes r.numbers b₀ b) :
    Attempt r.numbers (fun r' => r'.numbers.Perm r.numbers) b₀ (extend connect r specs b) := by
  have h := extend_attempt connect_adds specs ht
  have hnil : (specs.flatMap fun _ => ([] : List UInt8)) = [] := by simp
  rw [hnil, List.append_nil] at h
  exact h.imp fun r' hr' => by rwa [Extends, List.append_nil] at hr'

end

theorem ofConfig_attempt (c : RigConfig) (b : Bench) :
    Attempt c.pins (fun r => r.numbers.Perm c.pins) b (ofConfig c b) := by
  have hstart : Takes (numbers {}) b b := .nil rfl
  refine (extend_attempt buildInput_adds c.inputs.entries hstart).bind_more
    (List.subset_append_left ..) fun r₁ b₁ h₁ ht₁ => ?_
  have hall : (r₁.numbers ++ _).Perm c.pins := h₁.append_right _
  have houtputs := extend_attempt buildOutput_adds c.outputs.entries (ht₁.perm h₁.symm)
  refine (houtputs.perm hall).bind_more (List.Subset.refl _) fun r₂ b₂ h₂ ht₂ => ?_
  have hnumbers : r₂.numbers.Perm c.pins := h₂.trans hall
  -- All pins are taken now; what is left can fail, but takes no more.
  refine Attempt.perm ?_ hnumbers
  have htaken : Takes r₂.numbers b b₂ := ht₂.perm hnumbers.symm
  refine (orRelease_attempt_nil (Q := fun _ => True) htaken ?_).bind_more (List.Subset.refl _) ?_
  · cases c.specs with
    | ok specs => exact .of_pure trivial
    | error cause => exact .of_throw _
  · intro specs b₃ _ ht₃
    refine (extend_connect_attempt specs ht₃).bind fun r₃ b₄ h₃ => ?_
    exact ⟨r₃, _, rfl, h₃.trans hnumbers, rfl⟩

/-- Whatever is configured and whoever has lines already, a build either gives a rig that took the
configured pins and nothing else, or leaves everybody with the lines that they had. -/
theorem ofConfig_takes_all_or_none (c : RigConfig) (b : Bench) :
    match ofConfig c b with
    | .ok r b' =>
        r.numbers.Perm c.pins ∧ r.numbers.Nodup ∧
          (∀ p ∈ r.numbers, p.toNat ≤ 27 ∧ p ∉ b.claimed) ∧
          b'.claimed = b.claimed ∪ {p | p ∈ r.numbers} ∧ (r.release b').claimed = b.claimed ∧
          ∀ p ∉ c.pins, b'.line p = b.line p ∧ (r.release b').line p = b.line p
    | .error _ b' =>
        b'.claimed = b.claimed ∧ ∀ p, p ∈ b.claimed ∨ p ∉ c.pins → b'.line p = b.line p := by
  have h := ofConfig_attempt c b
  generalize ofConfig c b = result at h
  cases h with
  | error hr => exact ⟨hr.claimed, hr.others⟩
  | @ok r b' hperm ht =>
      have hrig : Takes r.numbers b b' := ht.perm hperm.symm
      have hback : Restores r.numbers b (r.release b') := hrig.undo_all
      refine ⟨hperm, hrig.nodup, fun p hp => ⟨hrig.onBoard p hp, hrig.free p hp⟩, hrig.claimed,
        hback.claimed, fun p hp => ⟨ht.others p hp, hback.others p (.inr ?_)⟩⟩
      exact mt hperm.mem_iff.mp hp

end Rig

end Patchbay
