import Patchbay.Connection
import Patchbay.Proofs.Outcome

/-! # Resolving bindings

Bindings of signals and of targets are resolved in the same way: cut in two, the device looked up
under the alias, and then the key looked up on the device. -/

namespace Patchbay.Connection

open Outcome

variable {δ κ : Type} {found : String → Option δ} {unknown : String → ConfigError}
  {find : δ → String → Except BindingError κ} {text name : String}

/-- What a binding leads to, by how devices are found under aliases and keys on devices. -/
def resolve (found : String → Option δ) (unknown : String → ConfigError)
    (find : δ → String → Except BindingError κ) (text : String) : Except RigError (String × κ) := do
  let (name, key) ← (splitBinding text).mapError .configuration
  match found name with
  | none => throw (.configuration (unknown name))
  | some device => return (name, ← (find device key).mapError .binding)

theorem source_eq_resolve (inputs : Registry Input) (text : String) :
    source inputs text = resolve inputs.find? .unknownInput Input.find text := by
  unfold source resolve
  congr 1
  funext ⟨name, key⟩
  dsimp only
  cases inputs.find? name <;> rfl

theorem destination_eq_resolve (outputs : Registry Output) (text : String) :
    destination outputs text = resolve outputs.find? .unknownOutput Output.find text := by
  unfold destination resolve
  congr 1
  funext ⟨name, key⟩
  dsimp only
  cases outputs.find? name <;> rfl

theorem resolve_eq_ok_iff {a : κ} : resolve found unknown find text = .ok (name, a) ↔
    ∃ key device, splitBinding text = .ok (name, key) ∧ found name = some device ∧
      find device key = .ok a := by
  simp only [resolve, bind_eq_ok_iff, mapError_eq_ok_iff]
  constructor
  · rintro ⟨⟨other, key⟩, hsplit, h⟩
    dsimp only at h
    split at h
    next => exact nomatch h
    next device hdevice =>
      obtain ⟨a', ha, h⟩ := bind_eq_ok_iff.mp h
      cases h
      exact ⟨key, device, hsplit, hdevice, mapError_eq_ok_iff.mp ha⟩
  · rintro ⟨key, device, hsplit, hdevice, ha⟩
    exact ⟨(name, key), hsplit, by simp only [hdevice, ha]; rfl⟩

theorem resolve_of_unknown {key : String} (hsplit : splitBinding text = .ok (name, key))
    (h : found name = none) :
    resolve found unknown find text = .error (.configuration (unknown name)) := by
  unfold resolve
  rw [hsplit, mapError_ok]
  simp only [bind, Except.bind, h]
  rfl

/-- A binding that leads nowhere is a fault of the configuration or of the binding. -/
theorem isBuildTime_of_resolve {cause : RigError}
    (h : resolve found unknown find text = .error cause) : cause.isBuildTime = true := by
  unfold resolve at h
  rcases bind_eq_error_iff.mp h with hsplit | ⟨⟨name, key⟩, _, h⟩
  · obtain ⟨first, _, rfl⟩ := mapError_eq_error_iff.mp hsplit
    rfl
  dsimp only at h
  split at h
  next =>
    cases h
    rfl
  next device _ =>
    rcases bind_eq_error_iff.mp h with hfind | ⟨a, _, h⟩
    · obtain ⟨first, _, rfl⟩ := mapError_eq_error_iff.mp hfind
      rfl
    · exact nomatch h

end Patchbay.Connection
