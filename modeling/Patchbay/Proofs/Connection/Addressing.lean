import Patchbay.Proofs.Connection.Naming
import Patchbay.Proofs.Connection.Resolving
import Patchbay.Proofs.Rig.Parts
import Patchbay.Proofs.Text.Trimming

/-! # Addressing

A binding is an alias, a dot and a key.  It is cut at its first dot and both parts are trimmed.  So
it leads to what is registered under the alias if the alias has no dot and no blanks at its ends; no
binding leads to what is registered under any other alias. -/

namespace Patchbay

/-! ## Keys -/

/-- Blanks around a key make no difference. -/
theorem Key.ofText_trim (text : String) : ofText (Text.trim text) = ofText text := by
  have hblank : Text.isBlank '.' = false := by decide
  unfold ofText
  rw [Text.toList_trim]
  by_cases hdot : '.' ∈ text.toList
  · obtain ⟨before, after, htext, hbefore⟩ := List.eq_append_cons_of_mem hdot
    have hleft : '.' ∉ before.dropWhile Text.isBlank :=
      fun h => hbefore ((List.dropWhile_suffix _).subset h)
    rw [htext, Text.trimList_append_cons hblank, Text.cutAt_append hleft,
      Text.cutAt_append hbefore]
    simp [Text.fold, Text.trimList_dropWhile, Text.trimList_rdropWhile]
  · have htrim : '.' ∉ Text.trimList text.toList := fun h => hdot (Text.mem_of_mem_trimList h)
    rw [Text.cutAt_of_not_mem hdot, Text.cutAt_of_not_mem htrim]
    simp

theorem Jack.find_trim {α : Type} {kind : String} {jacks : List (String × Jack α)} {key : String}
    {a : α} (h : find kind jacks key = .ok a) : find kind jacks (Text.trim key) = .ok a :=
  (find_eq_ok_iff (Key.ofText_trim key)).mpr h

theorem Input.find_trim {input : Input} {key : String} {signal : Signal}
    (h : input.find key = .ok signal) : input.find (Text.trim key) = .ok signal := by
  unfold find at h ⊢
  cases input with
  | controller c =>
      obtain ⟨control, hcontrol, rfl⟩ := Outcome.map_eq_ok_iff.mp h
      exact Outcome.map_eq_ok_iff.mpr ⟨control, Jack.find_trim hcontrol, rfl⟩
  | button o =>
      obtain ⟨value, hvalue, rfl⟩ := Outcome.map_eq_ok_iff.mp h
      exact Outcome.map_eq_ok_iff.mpr ⟨value, Jack.find_trim hvalue, rfl⟩

theorem Output.find_trim {output : Output} {key : String} {target : Target}
    (h : output.find key = .ok target) : output.find (Text.trim key) = .ok target :=
  Jack.find_trim h

/-! ## Aliases -/

/-- The binding of a key of what is under an alias. -/
def binding (name key : String) : String := name ++ "." ++ key

/-- An alias without a dot, and without blanks at its ends. -/
def Addressable (name : String) : Prop := '.' ∉ name.toList ∧ Text.trim name = name

instance (name : String) : Decidable (Addressable name) := inferInstanceAs (Decidable (_ ∧ _))

theorem toList_binding (name key : String) :
    (binding name key).toList = name.toList ++ '.' :: key.toList := by
  simp [binding]

theorem splitBinding_of_addressable {name : String} (h : Addressable name) (key : String) :
    splitBinding (binding name key) = .ok (name, Text.trim key) := by
  unfold splitBinding
  rw [toList_binding, Text.cutAt_append h.1]
  simp [h.2]

/-- What a binding is cut into starts with an alias that bindings can name. -/
theorem addressable_of_splitBinding {text name key : String}
    (h : splitBinding text = .ok (name, key)) : Addressable name := by
  unfold splitBinding at h
  cases hcut : Text.cutAt '.' text.toList with
  | none =>
      rw [hcut] at h
      exact nomatch h
  | some parts =>
      rw [hcut] at h
      cases h
      refine ⟨fun hdot => Text.not_mem_of_cutAt hcut ?_, Text.trim_trim _⟩
      rw [Text.toList_trim, String.toList_ofList] at hdot
      exact Text.mem_of_mem_trimList hdot

/-! ## What bindings lead to -/

namespace Rig

open Connection (source destination)

variable {r : Rig} {name key text : String} {signal : Signal} {target : Target}

/-- The input under an alias accepts a key, for a signal. -/
def Offers (r : Rig) (name key : String) (signal : Signal) : Prop :=
  ∃ input, r.inputs.find? name = some input ∧ input.find key = .ok signal

/-- The output under an alias accepts a key, for a target. -/
def Accepts (r : Rig) (name key : String) (target : Target) : Prop :=
  ∃ output, r.outputs.find? name = some output ∧ output.find key = .ok target

theorem addressable_of_source (h : source r.inputs text = .ok (name, signal)) :
    Addressable name := by
  rw [Connection.source_eq_resolve] at h
  obtain ⟨key, input, hsplit, -, -⟩ := Connection.resolve_eq_ok_iff.mp h
  exact addressable_of_splitBinding hsplit

theorem addressable_of_destination (h : destination r.outputs text = .ok (name, target)) :
    Addressable name := by
  rw [Connection.destination_eq_resolve] at h
  obtain ⟨key, output, hsplit, -, -⟩ := Connection.resolve_eq_ok_iff.mp h
  exact addressable_of_splitBinding hsplit

theorem Offers.source_eq (h : r.Offers name key signal) (hname : Addressable name) :
    source r.inputs (binding name key) = .ok (name, signal) := by
  obtain ⟨input, hinput, hsignal⟩ := h
  rw [Connection.source_eq_resolve]
  exact Connection.resolve_eq_ok_iff.mpr
    ⟨_, input, splitBinding_of_addressable hname key, hinput, Input.find_trim hsignal⟩

theorem Accepts.destination_eq (h : r.Accepts name key target) (hname : Addressable name) :
    destination r.outputs (binding name key) = .ok (name, target) := by
  obtain ⟨output, houtput, htarget⟩ := h
  rw [Connection.destination_eq_resolve]
  exact Connection.resolve_eq_ok_iff.mpr
    ⟨_, output, splitBinding_of_addressable hname key, houtput, Output.find_trim htarget⟩

/-- A connection of one signal to one target, without a function. -/
def wire (parameter source output : String) : ConnectionSpec :=
  { sources := [(parameter, source)], output := some output }

theorem Offers.build_wire {name' key' : String} (h : r.Offers name key signal)
    (h' : r.Accepts name' key' target) (hname : Addressable name) (hname' : Addressable name')
    (parameter : String) :
    ∃ c, Connection.build r.inputs r.outputs
        (wire parameter (binding name key) (binding name' key')) = .ok c ∧
      c.sources = [(name, signal)] ∧ c.output = name' ∧ c.target = target := by
  let spec := wire parameter (binding name key) (binding name' key')
  let c : Connection :=
    { label := spec.text, sources := [(name, signal)], function := none, output := name', target }
  refine ⟨c, Connection.build_eq_ok_iff.mpr ⟨?_, ?_, ?_, rfl, ?_, ?_, rfl⟩, rfl, rfl, rfl⟩
  · exact Nat.one_ne_zero
  · change 1 ≤ Function.maxArity
    decide
  · exact fun hmany => absurd hmany.1 (lt_irrefl 1)
  · exact Outcome.mapM_cons_eq_ok_iff.mpr ⟨_, [], h.source_eq hname, rfl, rfl⟩
  · exact ⟨_, rfl, h'.destination_eq hname'⟩

/-- In a built rig all is registered under the aliases of the configuration.  The binding of an
alias and a key that is accepted there leads to what is registered under the alias and to what the
key names there, just when the alias has no dot and no blanks at its ends; to what is registered
under another alias no binding leads. -/
theorem bindings_lead_to_addressable {config : RigConfig} {b b' : Bench}
    (h : ofConfig config b = .ok r b') :
    r.inputs.aliases = config.inputs.aliases ∧ r.outputs.aliases = config.outputs.aliases ∧
    (∀ name key signal, r.Offers name key signal →
      (source r.inputs (binding name key) = .ok (name, signal) ↔ Addressable name)) ∧
    (∀ name key target, r.Accepts name key target →
      (destination r.outputs (binding name key) = .ok (name, target) ↔ Addressable name)) ∧
    (∀ name, ¬ Addressable name → ∀ text,
      (∀ signal, source r.inputs text ≠ .ok (name, signal)) ∧
        ∀ target, destination r.outputs text ≠ .ok (name, target)) ∧
    (∀ name key signal name' key' target, r.Offers name key signal →
      r.Accepts name' key' target → Addressable name → Addressable name' → ∀ parameter,
      ∃ c, Connection.build r.inputs r.outputs
          (wire parameter (binding name key) (binding name' key')) = .ok c ∧
        c.sources = [(name, signal)] ∧ c.output = name' ∧ c.target = target) := by
  obtain ⟨hinputs, houtputs⟩ := aliases_ofConfig h
  refine ⟨hinputs, houtputs, ?_, ?_, ?_, ?_⟩
  · exact fun name key signal hoffers => ⟨addressable_of_source, hoffers.source_eq⟩
  · exact fun name key target haccepts => ⟨addressable_of_destination, haccepts.destination_eq⟩
  · intro name hname text
    exact ⟨fun signal hsource => hname (addressable_of_source hsource),
      fun target hdestination => hname (addressable_of_destination hdestination)⟩
  · intro name key signal name' key' target hoffers haccepts hname hname'
    exact hoffers.build_wire haccepts hname hname'

/-- A gamepad under some alias, and a motor. -/
def desk (name : String) : RigConfig where
  inputs := .ofList [(name, .controller "js0")]
  outputs := .ofList [("arm", .motor { name := "ms18", pin := some 5 })]

/-- A key may have a dot of its own. -/
theorem bindings_lead_to_addressable_pad :
    ∃ r b, ofConfig (desk "pad") {} = .ok r b ∧
      (r.Offers "pad" "ljoy.x" (.control (.stick .left .x)) ∧ Addressable "pad") ∧
      (r.Accepts "arm" "value" .value ∧ Addressable "arm") ∧
      ∃ c, Connection.build r.inputs r.outputs (wire "v" "pad.ljoy.x" "arm.value") = .ok c ∧
        c.sources = [("pad", .control (.stick .left .x))] ∧ c.output = "arm" ∧
        c.target = .value := by
  obtain ⟨r, b, hbuilt, hoffers, haccepts⟩ : ∃ r b, ofConfig (desk "pad") {} = .ok r b ∧
      r.Offers "pad" "ljoy.x" (.control (.stick .left .x)) ∧ r.Accepts "arm" "value" .value :=
    ⟨_, _, rfl, ⟨_, rfl, by decide +kernel⟩, ⟨_, rfl, rfl⟩⟩
  have hpad : Addressable "pad" := by decide
  have harm : Addressable "arm" := by decide
  obtain ⟨-, -, -, -, -, hwire⟩ := bindings_lead_to_addressable hbuilt
  exact ⟨r, b, hbuilt, ⟨hoffers, hpad⟩, ⟨haccepts, harm⟩,
    hwire _ _ _ _ _ _ hoffers haccepts hpad harm "v"⟩

/-- Under an alias with a dot the gamepad accepts the key, but the binding asks for another
alias. -/
theorem dotted_alias_not_found :
    ∃ r b, ofConfig (desk "desk.pad") {} = .ok r b ∧
      r.Offers "desk.pad" "x" (.control (.button .cross)) ∧
      source r.inputs (binding "desk.pad" "x") = .error (.configuration (.unknownInput "desk")) := by
  obtain ⟨r, b, hbuilt, hoffers, hnone⟩ : ∃ r b, ofConfig (desk "desk.pad") {} = .ok r b ∧
      r.Offers "desk.pad" "x" (.control (.button .cross)) ∧ r.inputs.find? "desk" = none :=
    ⟨_, _, rfl, ⟨_, rfl, by decide +kernel⟩, rfl⟩
  have hsplit : splitBinding (binding "desk.pad" "x") = .ok ("desk", "pad.x") := by decide +kernel
  refine ⟨r, b, hbuilt, hoffers, ?_⟩
  rw [Connection.source_eq_resolve]
  exact Connection.resolve_of_unknown hsplit hnone

end Rig

end Patchbay
