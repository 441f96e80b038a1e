import Patchbay.Input
import Patchbay.Output.Basic
import Patchbay.Proofs.Outcome
import Patchbay.Proofs.Text.Folding

/-! # Keys by the manual

For each kind of device the manual lists the controls and, for each of them, which components it
has.  What a key is resolved to follows from the manual alone: which of four faults it has, or that
it has none. -/

namespace Patchbay

/-! ## Keys -/

namespace Key

/-- The halves of a key around its first dot, each trimmed and in lower case. -/
inductive Halves (key : String) : String → Option String → Prop
  | whole (hdot : '.' ∉ key.toList) : Halves key (Text.fold key) none
  | parted {control component : String} (hdot : '.' ∉ control.toList)
      (hkey : key = control ++ "." ++ component) :
      Halves key (Text.fold control) (some (Text.fold component))

theorem Halves.ofText_eq {key control : String} {component : Option String}
    (h : Halves key control component) : ofText key = ⟨control, component⟩ := by
  unfold ofText
  cases h with
  | whole hdot => rw [Text.cutAt_of_not_mem hdot]
  | @parted control component hdot hkey =>
      have hcut : key.toList = control.toList ++ '.' :: component.toList := by simp [hkey]
      rw [hcut, Text.cutAt_append hdot]
      simp

theorem halves_ofText (key : String) : Halves key (ofText key).control (ofText key).component := by
  by_cases hdot : '.' ∈ key.toList
  · obtain ⟨before, after, hkey, hbefore⟩ := List.eq_append_cons_of_mem hdot
    have h : Halves key (Text.fold (.ofList before)) (some (Text.fold (.ofList after))) :=
      .parted (by simpa using hbefore) (String.toList_inj.mp (by simp [hkey]))
    rwa [h.ofText_eq]
  · have h : Halves key (Text.fold key) none := .whole hdot
    rwa [h.ofText_eq]

/-- Two keys that differ by the case of letters and by blanks around their halves only. -/
inductive Alike (key key' : String) : Prop
  | whole (hdot : '.' ∉ key.toList) (hdot' : '.' ∉ key'.toList) (h : Text.SameWord key key')
  | parted {control control' component component' : String} (hdot : '.' ∉ control.toList)
      (hdot' : '.' ∉ control'.toList) (hkey : key = control ++ "." ++ component)
      (hkey' : key' = control' ++ "." ++ component') (hcontrol : Text.SameWord control control')
      (hcomponent : Text.SameWord component component')

theorem Alike.ofText_eq {key key' : String} (h : Alike key key') : ofText key = ofText key' := by
  cases h with
  | whole hdot hdot' h =>
      rw [(Halves.whole hdot).ofText_eq, (Halves.whole hdot').ofText_eq, Text.fold_eq_iff.mpr h]
  | parted hdot hdot' hkey hkey' hcontrol hcomponent =>
      rw [(Halves.parted hdot hkey).ofText_eq, (Halves.parted hdot' hkey').ofText_eq,
        Text.fold_eq_iff.mpr hcontrol, Text.fold_eq_iff.mpr hcomponent]

end Key

open Key (Halves)

/-! ## Manuals -/

/-- How a control is written. -/
inductive Form
  /-- Without a component. -/
  | bare
  /-- With one of these components, or without. -/
  | divisible (components : List String)
  /-- With one of these components. -/
  | divided (components : List String)

def Form.components : Form → List String
  | bare => []
  | divisible components | divided components => components

/-- The controls of a device. -/
abbrev Manual := List (String × Form)

/-- The fault of a key on a device.  That its control is unknown comes first. -/
inductive Manual.Fault (manual : Manual) (kind key : String) : BindingError → Prop
  | unknownControl {control component} (h : Halves key control component)
      (hcontrol : manual.lookup control = none) : Fault manual kind key (.unknownControl kind key)
  | unexpectedComponent {control component} (h : Halves key control (some component))
      (hform : manual.lookup control = some .bare) :
      Fault manual kind key (.unexpectedComponent kind control)
  | missingComponent {control components} (h : Halves key control none)
      (hform : manual.lookup control = some (.divided components)) :
      Fault manual kind key (.missingComponent kind control)
  | unknownComponent {control component form} (h : Halves key control (some component))
      (hform : manual.lookup control = some form) (hbare : form ≠ .bare)
      (hcomponent : component ∉ form.components) :
      Fault manual kind key (.unknownComponent kind control component)

/-- A device resolves keys as its manual says: to the fault that a key has, or to something.  Keys
that are alike are resolved to the same. -/
structure Manual.Governs {α : Type} (manual : Manual) (kind : String)
    (find : String → Except BindingError α) : Prop where
  error_iff : ∀ key cause, find key = .error cause ↔ manual.Fault kind key cause
  exists_iff : ∀ key, (∃ a, find key = .ok a) ↔ ∀ cause, ¬ manual.Fault kind key cause
  alike : ∀ key key', Key.Alike key key' → ∀ a, find key = .ok a ↔ find key' = .ok a

/-! ## Jacks -/

namespace Jack

variable {α : Type} {jacks : List (String × Jack α)} {kind key control component : String}

/-- How the control of a jack is written. -/
def form (jack : Jack α) : Form :=
  if jack.parts.isEmpty then .bare
  else if jack.whole.isSome then .divisible (jack.parts.map Prod.fst)
  else .divided (jack.parts.map Prod.fst)

theorem form_eq_bare_iff {jack : Jack α} : jack.form = .bare ↔ jack.parts.isEmpty = true := by
  unfold form
  split
  next h => simp [h]
  next h => split <;> simp [h]

theorem form_eq_divided_iff {jack : Jack α} :
    (∃ components, jack.form = .divided components) ↔
      jack.parts.isEmpty = false ∧ jack.whole = none := by
  unfold form
  cases jack.parts.isEmpty <;> cases jack.whole <;> simp

theorem components_form (jack : Jack α) : jack.form.components = jack.parts.map Prod.fst := by
  unfold form
  split
  next h => rw [List.isEmpty_iff.mp h]; rfl
  next => split <;> rfl

theorem lookup_parts_eq_none_iff {jack : Jack α} :
    jack.parts.lookup component = none ↔ component ∉ jack.form.components := by
  rw [List.lookup_eq_none_iff, components_form, List.mem_map]
  constructor
  · rintro h ⟨part, hpart, rfl⟩
    exact absurd (h part hpart) (by simp)
  · intro h part hpart
    exact bne_iff_ne.mpr fun heq => h ⟨part, hpart, heq.symm⟩

/-- The manual of a device with these jacks. -/
def manual (jacks : List (String × Jack α)) : Manual :=
  jacks.map fun (name, jack) => (name, jack.form)

theorem lookup_manual (jacks : List (String × Jack α)) (control : String) :
    (manual jacks).lookup control = (jacks.lookup control).map form := by
  induction jacks with
  | nil => rfl
  | cons entry rest ih =>
      obtain ⟨name, jack⟩ := entry
      simp only [manual, List.map_cons, List.lookup_cons] at ih ⊢
      split
      · rfl
      · exact ih

/-- A control that has neither components nor anything as a whole could not be written. -/
def Usable (jack : Jack α) : Prop := jack.parts.isEmpty = true → jack.whole.isSome = true

instance (jack : Jack α) : Decidable jack.Usable := inferInstanceAs (Decidable (_ → _))

theorem find_of_fault {cause : BindingError} (h : (manual jacks).Fault kind key cause) :
    find kind jacks key = .error cause := by
  unfold find
  cases h with
  | unknownControl hkey hcontrol =>
      rw [lookup_manual, Option.map_eq_none_iff] at hcontrol
      simp only [hkey.ofText_eq, hcontrol]
  | unexpectedComponent hkey hform =>
      rw [lookup_manual, Option.map_eq_some_iff] at hform
      obtain ⟨jack, hjack, hform⟩ := hform
      simp only [hkey.ofText_eq, hjack, form_eq_bare_iff.mp hform, if_true]
  | missingComponent hkey hform =>
      rw [lookup_manual, Option.map_eq_some_iff] at hform
      obtain ⟨jack, hjack, hform⟩ := hform
      simp only [hkey.ofText_eq, hjack, (form_eq_divided_iff.mp ⟨_, hform⟩).2]
  | unknownComponent hkey hform hbare hcomponent =>
      rw [lookup_manual, Option.map_eq_some_iff] at hform
      obtain ⟨jack, hjack, rfl⟩ := hform
      have hparts : ¬ jack.parts.isEmpty = true := fun h => hbare (form_eq_bare_iff.mpr h)
      simp [hkey.ofText_eq, hjack, hparts, lookup_parts_eq_none_iff.mpr hcomponent]

theorem fault_of_find (husable : ∀ entry ∈ jacks, entry.2.Usable) {cause : BindingError}
    (h : find kind jacks key = .error cause) : (manual jacks).Fault kind key cause := by
  have hkey := Key.halves_ofText key
  unfold find at h
  generalize Key.ofText key = folded at hkey h
  obtain ⟨control, component⟩ := folded
  dsimp only at hkey h
  cases hjack : jacks.lookup control with
  | none =>
      simp only [hjack] at h
      cases h
      exact .unknownControl hkey (by rw [lookup_manual, hjack]; rfl)
  | some jack =>
      have hform : (manual jacks).lookup control = some jack.form := by
        rw [lookup_manual, hjack]
        rfl
      simp only [hjack] at h
      cases component with
      | none =>
          cases hwhole : jack.whole with
          | some a => simp [hwhole] at h
          | none =>
              simp only [hwhole] at h
              cases h
              obtain ⟨before, after, rfl, _⟩ := List.lookup_eq_some_iff.mp hjack
              have hparts : jack.parts.isEmpty = false := by
                have := husable (control, jack) (by simp)
                simpa [Usable, hwhole] using this
              obtain ⟨components, hdivided⟩ := form_eq_divided_iff.mpr ⟨hparts, hwhole⟩
              exact .missingComponent hkey (hdivided ▸ hform)
      | some component =>
          by_cases hparts : jack.parts.isEmpty = true
          · simp only [hparts, if_true] at h
            cases h
            exact .unexpectedComponent hkey (form_eq_bare_iff.mpr hparts ▸ hform)
          · simp only [hparts] at h
            cases hpart : jack.parts.lookup component with
            | some a => simp [hpart] at h
            | none =>
                simp only [hpart] at h
                cases h
                exact .unknownComponent hkey hform (fun h => hparts (form_eq_bare_iff.mp h))
                  (lookup_parts_eq_none_iff.mp hpart)

/-- Jacks resolve keys as their manual says. -/
theorem governs_find (jacks : List (String × Jack α)) (husable : ∀ entry ∈ jacks, entry.2.Usable) :
    (manual jacks).Governs kind (find kind jacks) := by
  have herror key cause : find kind jacks key = .error cause ↔
      (manual jacks).Fault kind key cause := ⟨fault_of_find husable, find_of_fault⟩
  refine ⟨herror, fun key => ?_, fun key key' h a => find_eq_ok_iff h.ofText_eq⟩
  simp only [← herror]
  cases find kind jacks key <;> simp

end Jack

theorem Manual.Governs.map {α β : Type} {manual : Manual} {kind : String}
    {find : String → Except BindingError α} (h : manual.Governs kind find) (f : α → β) :
    manual.Governs kind fun key => (find key).map f := by
  have hok key b : (find key).map f = .ok b ↔ ∃ a, find key = .ok a ∧ f a = b :=
    Outcome.map_eq_ok_iff
  refine ⟨fun key cause => ?_, fun key => ?_, fun key key' halike b => ?_⟩
  · rw [← h.error_iff]
    cases find key <;> simp [Except.map]
  · rw [← h.exists_iff]
    simp only [hok]
    exact ⟨fun ⟨_, a, ha, _⟩ => ⟨a, ha⟩, fun ⟨a, ha⟩ => ⟨f a, a, ha, rfl⟩⟩
  · simp only [hok, h.alike key key' halike]

/-! ## The devices -/

/-- The controls of a gamepad that are read as a whole. -/
def Gamepad.Control.bareNames : List String :=
  ["x", "circle", "triangle", "square", "lb", "rb", "share", "options", "ps", "lstick", "rstick",
    "lt", "rt", "lrt"]

def Input.manual : Input → Manual
  | controller _ =>
    Gamepad.Control.bareNames.map (·, .bare) ++
      ["ljoy", "rjoy", "dpad"].map (·, .divided ["x", "y", "left", "up", "right", "down"])
  | button _ => [("value", .bare)]

def Output.manual : Output → Manual
  | solid _ => [("color", .divisible ["r", "g", "b"]), ("brightness", .bare)]
  | cycling _ => [("brightness", .bare), ("period", .bare)]
  | flashing _ =>
    [("color", .divisible ["r", "g", "b"]), ("brightness", .bare), ("period", .bare)]
  | constant _ => [("value", .bare)]
  | oscillating _ => [("period", .bare), ("max", .bare)]
  | dancing _ => [("period", .bare), ("restart", .bare)]

/-- Nothing behind a dot is a component, too. -/
example : Jack.find "light cycle" CyclingLight.jacks "\tPERIOD ." =
    .error (.unexpectedComponent "light cycle" "period") := by
  decide +kernel

end Patchbay
