import Mathlib.Data.List.TakeWhile
import Patchbay.Text.Blank
import Patchbay.Text.Fields

/-! # Cutting and joining

Cutting undoes joining as far as the parts are free of the separator. -/

namespace Patchbay.Text

variable {separator : Char}

/-! ## At the first separator -/

theorem cutAt_append {before : List Char} (h : separator ∉ before) (after : List Char) :
    cutAt separator (before ++ separator :: after) = some (before, after) := by
  induction before with
  | nil => simp [cutAt]
  | cons c before ih =>
      simp only [List.mem_cons, not_or] at h
      simp [cutAt, Ne.symm h.1, ih h.2]

theorem cutAt_of_not_mem {cs : List Char} (h : separator ∉ cs) : cutAt separator cs = none := by
  induction cs with
  | nil => rfl
  | cons c cs ih =>
      simp only [List.mem_cons, not_or] at h
      simp [cutAt, Ne.symm h.1, ih h.2]

theorem not_mem_of_cutAt {cs before after : List Char}
    (h : cutAt separator cs = some (before, after)) : separator ∉ before := by
  by_cases hmem : separator ∈ cs
  · obtain ⟨first, rest, rfl, hfirst⟩ := List.eq_append_cons_of_mem hmem
    rw [cutAt_append hfirst] at h
    cases h
    exact hfirst
  · rw [cutAt_of_not_mem hmem] at h
    exact nomatch h

/-! ## At every separator -/

theorem fields_append (before after : List Char) :
    fields separator (before ++ separator :: after) =
      fields separator before ++ fields separator after := by
  induction before with
  | nil => simp [fields]
  | cons c before ih =>
      by_cases hc : c = separator
      · simp [fields, hc, ih]
      · cases hfields : fields separator before with
        | nil => exact absurd hfields (fields_ne_nil separator before)
        | cons field others => simp [fields, hc, ih, hfields]

theorem fields_of_not_mem {cs : List Char} (h : separator ∉ cs) : fields separator cs = [cs] := by
  induction cs with
  | nil => rfl
  | cons c cs ih =>
      simp only [List.mem_cons, not_or] at h
      simp [fields, Ne.symm h.1, ih h.2]

/-- A text with one field is the field. -/
theorem fields_of_length_eq_one {cs : List Char} (h : (fields separator cs).length = 1) :
    fields separator cs = [cs] := by
  by_cases hmem : separator ∈ cs
  · obtain ⟨before, after, rfl⟩ := List.append_of_mem hmem
    have hbefore := List.length_pos_iff.mpr (fields_ne_nil separator before)
    have hafter := List.length_pos_iff.mpr (fields_ne_nil separator after)
    rw [fields_append, List.length_append] at h
    omega
  · exact fields_of_not_mem hmem

theorem fields_intercalate {parts : List (List Char)} (h : parts ≠ []) :
    fields separator ([separator].intercalate parts) = parts.flatMap (fields separator) := by
  induction parts with
  | nil => exact absurd rfl h
  | cons part parts ih =>
      cases parts with
      | nil => simp
      | cons next parts =>
          rw [List.intercalate_cons_cons, List.append_assoc, List.singleton_append, fields_append,
            ih (List.cons_ne_nil _ _), ← List.flatMap_cons]

theorem length_le_length_flatMap_fields (parts : List (List Char)) :
    parts.length ≤ (parts.flatMap (fields separator)).length := by
  induction parts with
  | nil => simp
  | cons part parts ih =>
      have hpart := List.length_pos_iff.mpr (fields_ne_nil separator part)
      simp only [List.flatMap_cons, List.length_append, List.length_cons]
      omega

/-- Joined parts are cut into as many fields only where they were joined. -/
theorem fields_intercalate_of_length_eq {parts : List (List Char)} (h : parts ≠ [])
    (hlength : (fields separator ([separator].intercalate parts)).length = parts.length) :
    fields separator ([separator].intercalate parts) = parts := by
  rw [fields_intercalate h] at hlength ⊢
  clear h
  induction parts with
  | nil => rfl
  | cons part parts ih =>
      have hpart := List.length_pos_iff.mpr (fields_ne_nil separator part)
      have hrest : parts.length ≤ (parts.flatMap (fields separator)).length :=
        length_le_length_flatMap_fields parts
      simp only [List.flatMap_cons, List.length_append, List.length_cons] at hlength
      rw [List.flatMap_cons, ih (by omega), fields_of_length_eq_one (by omega),
        List.singleton_append]

theorem fields_intercalate_of_not_mem {parts : List (List Char)} (h : parts ≠ [])
    (hparts : ∀ part ∈ parts, separator ∉ part) :
    fields separator ([separator].intercalate parts) = parts := by
  rw [fields_intercalate h]
  clear h
  induction parts with
  | nil => rfl
  | cons part parts ih =>
      rw [List.flatMap_cons, fields_of_not_mem (hparts _ List.mem_cons_self),
        ih fun p hp => hparts p (List.mem_cons_of_mem _ hp), List.singleton_append]

theorem mem_intercalate {c : Char} {parts : List (List Char)}
    (h : c ∈ [separator].intercalate parts) : c = separator ∨ ∃ part ∈ parts, c ∈ part := by
  induction parts with
  | nil => simp at h
  | cons part parts ih =>
      cases parts with
      | nil => exact .inr ⟨part, List.mem_cons_self, by simpa using h⟩
      | cons next parts =>
          rw [List.intercalate_cons_cons, List.append_assoc, List.mem_append,
            List.singleton_append, List.mem_cons] at h
          rcases h with h | h | h
          · exact .inr ⟨part, List.mem_cons_self, h⟩
          · exact .inl h
          · exact (ih h).imp_right fun ⟨p, hp, hc⟩ => ⟨p, List.mem_cons_of_mem _ hp, hc⟩

/-! ## Without blanks -/

theorem dropBlanks_append (cs ds : List Char) :
    dropBlanks (cs ++ ds) = dropBlanks cs ++ dropBlanks ds := List.filter_append ..

theorem dropBlanks_intercalate (h : isBlank separator = false) (parts : List (List Char)) :
    dropBlanks ([separator].intercalate parts) =
      [separator].intercalate (parts.map dropBlanks) := by
  induction parts with
  | nil => rfl
  | cons part parts ih =>
      cases parts with
      | nil => simp
      | cons next parts =>
          rw [List.map_cons, List.map_cons, List.intercalate_cons_cons,
            List.intercalate_cons_cons, ← List.map_cons, ← ih, dropBlanks_append,
            dropBlanks_append]
          simp [dropBlanks, h]

/-- The second text is the first with blanks put in, anywhere. -/
inductive Spaced : List Char → List Char → Prop
  | nil : Spaced [] []
  | keep {cs ds : List Char} (c : Char) (h : Spaced cs ds) : Spaced (c :: cs) (c :: ds)
  | blank {cs ds : List Char} {c : Char} (hc : isBlank c) (h : Spaced cs ds) : Spaced cs (c :: ds)

theorem Spaced.dropBlanks_eq {cs ds : List Char} (h : Spaced cs ds)
    (hcs : ∀ c ∈ cs, isBlank c = false) : dropBlanks ds = cs := by
  induction h with
  | nil => rfl
  | keep c _ ih =>
      have hrest := ih fun d hd => hcs d (List.mem_cons_of_mem c hd)
      unfold dropBlanks at hrest ⊢
      rw [List.filter_cons_of_pos (by simp [hcs c List.mem_cons_self]), hrest]
  | blank hc _ ih =>
      have hrest := ih hcs
      unfold dropBlanks at hrest ⊢
      rw [List.filter_cons_of_neg (by simp [hc]), hrest]

theorem spaced_dropBlanks (cs : List Char) : Spaced (dropBlanks cs) cs := by
  induction cs with
  | nil => exact .nil
  | cons c cs ih =>
      unfold dropBlanks at ih ⊢
      by_cases hc : isBlank c
      · rw [List.filter_cons_of_neg (by simp [hc])]
        exact .blank hc ih
      · rw [List.filter_cons_of_pos (by simp [hc])]
        exact .keep c ih

theorem dropBlanks_ne_nil {cs : List Char} (h : trimList cs ≠ []) : dropBlanks cs ≠ [] := by
  intro hnil
  have hblank : ∀ c ∈ cs, isBlank c := by simpa [dropBlanks] using hnil
  have hdrop : cs.dropWhile isBlank = [] := List.dropWhile_eq_nil_iff.mpr hblank
  exact h (by simp [trimList, hdrop])

end Patchbay.Text
