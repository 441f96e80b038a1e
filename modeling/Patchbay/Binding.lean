import Patchbay.Text.Blank
import Patchbay.Text.Fields
import Patchbay.Text.Quoted
/-!
# Bindings

Addressing one value of a device by a key `control` or `control.component`.  A device documents its
controls as jacks; `Jack.find` looks a key up among them.
-/

namespace Patchbay

/-- A key, folded: what it names and, after the first dot, which part of it. -/
structure Key where
  control : String
  component : Option String
deriving DecidableEq, Repr

def Key.ofText (text : String) : Key :=
  match Text.cutAt '.' text.toList with
  | some (control, component) =>
    ⟨Text.fold (.ofList control), some (Text.fold (.ofList component))⟩
  | none => ⟨Text.fold text, none⟩

/-- Why a key names nothing on a device of some kind. -/
inductive BindingError
  | unknownControl (kind key : String)
  | unknownComponent (kind control component : String)
  | missingComponent (kind control : String)
  | unexpectedComponent (kind control : String)
deriving DecidableEq, Repr

open Text (between)

def BindingError.message : BindingError → String
  | unknownControl kind key => s!"{kind} has no control {between key}"
  | unknownComponent kind control component =>
    s!"{kind} control {between control} has no component {between component}"
  | missingComponent kind control =>
    let example_ := between (control ++ ".x")
    s!"{kind} control {between control} needs a component (e.g. {example_})"
  | unexpectedComponent kind control =>
    s!"{kind} control {between control} does not take a component"

/-- What a control offers as a whole, and what its components offer. -/
structure Jack (α : Type) where
  whole : Option α
  parts : List (String × α) := []

namespace Jack

/-- A control without components. -/
def single {α : Type} (a : α) : Jack α := ⟨some a, []⟩

/-- What a key names among the jacks of a device. -/
def find {α : Type} (kind : String) (jacks : List (String × Jack α)) (key : String) :
    Except BindingError α :=
  let ⟨control, component⟩ := Key.ofText key
  match jacks.lookup control, component with
  | none, _ => .error (.unknownControl kind key)
  | some jack, none =>
    match jack.whole with
    | some a => .ok a
    | none => .error (.missingComponent kind control)
  | some jack, some component =>
    if jack.parts.isEmpty then .error (.unexpectedComponent kind control)
    else
      match jack.parts.lookup component with
      | some a => .ok a
      | none => .error (.unknownComponent kind control component)

/-- Keys that are folded to the same name the same: the key itself only stands in a fault. -/
theorem find_eq_ok_iff {α : Type} {kind : String} {jacks : List (String × Jack α)}
    {key key' : String} (h : Key.ofText key = Key.ofText key') {a : α} :
    find kind jacks key = .ok a ↔ find kind jacks key' = .ok a := by
  unfold find
  rw [h]
  generalize Key.ofText key' = folded
  obtain ⟨control, component⟩ := folded
  dsimp only
  cases jacks.lookup control with
  | none => simp
  | some jack => cases component <;> exact Iff.rfl

end Jack

end Patchbay
