import Mathlib.Data.List.DropRight
import Patchbay.Proofs.Text.Cutting

/-! # Blanks at the ends

Trimming takes the blanks off both ends, in either order, and a trimmed text has none left.  Where a
text is cut, it makes no difference to the trimmed parts whether the whole was trimmed before. -/

namespace Patchbay.Text

variable {separator : Char}

theorem trimList_eq_rdropWhile (cs : List Char) :
    trimList cs = (cs.dropWhile isBlank).rdropWhile isBlank := rfl

theorem dropWhile_rdropWhile (cs : List Char) :
    (cs.rdropWhile isBlank).dropWhile isBlank = trimList cs := by
  rw [trimList_eq_rdropWhile]
  induction cs using List.reverseRecOn with
  | nil => rfl
  | append_singleton cs c ih =>
      by_cases hc : isBlank c
      · rw [List.rdropWhile_concat_pos _ _ _ hc, ih, List.dropWhile_append]
        split
        next hall => simp [List.isEmpty_iff.mp hall, hc]
        next => rw [List.rdropWhile_concat_pos _ _ _ hc]
      · rw [List.rdropWhile_concat_neg _ _ _ hc, List.dropWhile_append]
        split
        next => simp [hc, List.rdropWhile_singleton]
        next => rw [List.rdropWhile_concat_neg _ _ _ hc]

theorem trimList_dropWhile (cs : List Char) : trimList (cs.dropWhile isBlank) = trimList cs := by
  rw [trimList_eq_rdropWhile, List.dropWhile_idempotent, ← trimList_eq_rdropWhile]

theorem trimList_rdropWhile (cs : List Char) :
    trimList (cs.rdropWhile isBlank) = trimList cs := by
  rw [← dropWhile_rdropWhile, List.rdropWhile_idempotent, dropWhile_rdropWhile]

theorem trimList_trimList (cs : List Char) : trimList (trimList cs) = trimList cs :=
  (trimList_rdropWhile _).trans (trimList_dropWhile cs)

theorem mem_of_mem_trimList {c : Char} {cs : List Char} (h : c ∈ trimList cs) : c ∈ cs :=
  (List.dropWhile_suffix _).subset ((List.rdropWhile_prefix isBlank (cs.dropWhile _)).subset h)

theorem dropWhile_append_cons (h : isBlank separator = false) (before after : List Char) :
    (before ++ separator :: after).dropWhile isBlank =
      before.dropWhile isBlank ++ separator :: after := by
  rw [List.dropWhile_append]
  split
  next hall => simp [List.isEmpty_iff.mp hall, h]
  next => rfl

theorem rdropWhile_append_cons (h : isBlank separator = false) (before after : List Char) :
    (before ++ separator :: after).rdropWhile isBlank =
      before ++ separator :: after.rdropWhile isBlank := by
  have hreverse := dropWhile_append_cons h after.reverse before.reverse
  simp only [List.rdropWhile, List.reverse_append, List.reverse_cons, List.append_assoc,
    List.singleton_append, hreverse, List.reverse_reverse]

/-- Around a separator that is no blank, each part is trimmed at its own end. -/
theorem trimList_append_cons (h : isBlank separator = false) (before after : List Char) :
    trimList (before ++ separator :: after) =
      before.dropWhile isBlank ++ separator :: after.rdropWhile isBlank := by
  rw [trimList_eq_rdropWhile, dropWhile_append_cons h, rdropWhile_append_cons h]

theorem toList_trim (s : String) : (trim s).toList = trimList s.toList := by simp [trim]

@[simp] theorem trim_trim (s : String) : trim (trim s) = trim s := by
  simp [trim, trimList_trimList]

@[simp] theorem fold_trim (s : String) : fold (trim s) = fold s := by
  simp [fold, toList_trim, trimList_trimList]

end Patchbay.Text
