import Patchbay.Proofs.Text.Trimming

/-! # Words in any case

Two texts fold to the same word exactly when they differ by blanks at their ends and by the case of
letters only. -/

namespace Patchbay.Text

theorem not_isBlank_of_visible {c : Char} (h : 0x21 ≤ c.toNat) (hascii : c.toNat < 0x80) :
    isBlank c = false := by
  unfold isBlank
  simp only [Bool.or_eq_false_iff, Bool.and_eq_false_iff, decide_eq_false_iff_not]
  omega

/-- A character in another case is as blank as before. -/
theorem isBlank_toLower (c : Char) : isBlank c.toLower = isBlank c := by
  unfold Char.toLower
  split
  next h =>
    have hlow : 65 ≤ c.toNat := UInt32.le_iff_toNat_le.mp h.1
    have hhigh : c.toNat ≤ 90 := UInt32.le_iff_toNat_le.mp h.2
    have hlower : (c.val + ('a'.val - 'A'.val)).toNat = c.toNat + 32 := by
      rw [UInt32.toNat_add]
      exact Nat.mod_eq_of_lt (by change c.toNat + 32 < 2 ^ 32; omega)
    rw [not_isBlank_of_visible (c := c) (by omega) (by omega)]
    refine not_isBlank_of_visible ?_ ?_
    · change 0x21 ≤ (c.val + ('a'.val - 'A'.val)).toNat
      omega
    · change (c.val + ('a'.val - 'A'.val)).toNat < 0x80
      omega
  next => rfl

theorem trimList_map_toLower (cs : List Char) :
    trimList (cs.map Char.toLower) = (trimList cs).map Char.toLower := by
  have hblank : isBlank ∘ Char.toLower = isBlank := funext isBlank_toLower
  simp only [trimList, List.dropWhile_map, hblank, ← List.map_reverse]

/-- A text that is some characters with blanks around them. -/
def Padded (cs text : List Char) : Prop :=
  ∃ front back, (∀ c ∈ front, isBlank c) ∧ (∀ c ∈ back, isBlank c) ∧ text = front ++ (cs ++ back)

theorem padded_trimList (text : List Char) : Padded (trimList text) text := by
  refine ⟨text.takeWhile isBlank, (text.dropWhile isBlank).rtakeWhile isBlank,
    fun c hc => List.mem_takeWhile_imp hc, fun c hc => ?_, ?_⟩
  · exact List.mem_takeWhile_imp (List.mem_reverse.mp hc)
  · rw [trimList_eq_rdropWhile, List.rdropWhile, List.rtakeWhile, ← List.reverse_append,
      List.takeWhile_append_dropWhile, List.reverse_reverse, List.takeWhile_append_dropWhile]

theorem Padded.trimList_eq {cs text : List Char} (h : Padded cs text) :
    trimList text = trimList cs := by
  obtain ⟨front, back, hfront, hback, rfl⟩ := h
  have hreverse : ∀ c ∈ back.reverse, isBlank c := fun c hc => hback c (List.mem_reverse.mp hc)
  calc trimList (front ++ (cs ++ back))
    _ = trimList (cs ++ back) := by
      rw [← trimList_dropWhile, List.dropWhile_append_of_pos hfront, trimList_dropWhile]
    _ = trimList cs := by
      rw [← trimList_rdropWhile, List.rdropWhile, List.reverse_append,
        List.dropWhile_append_of_pos hreverse, ← List.rdropWhile, trimList_rdropWhile]

theorem trimList_append_blanks {cs blanks : List Char} (hcs : ∀ c ∈ cs, isBlank c = false)
    (hblanks : ∀ c ∈ blanks, isBlank c) : trimList (cs ++ blanks) = cs := by
  have hpadded : Padded cs (cs ++ blanks) :=
    ⟨[], blanks, fun c hc => absurd hc List.not_mem_nil, hblanks, rfl⟩
  have hfront : cs.dropWhile isBlank = cs :=
    List.dropWhile_eq_self_iff.mpr fun hpos => by simp [hcs _ (List.getElem_mem hpos)]
  have hback : cs.rdropWhile isBlank = cs :=
    List.rdropWhile_eq_self_iff.mpr fun hne => by simp [hcs _ (List.getLast_mem hne)]
  rw [hpadded.trimList_eq, trimList_eq_rdropWhile, hfront, hback]

/-- The front of a trimmed text has blanks at its end only. -/
theorem exists_blanks_of_trimmed {text front back : List Char}
    (h : trimList text = front ++ back) :
    ∃ blanks, (∀ c ∈ blanks, isBlank c) ∧ front = trimList front ++ blanks := by
  have hfront : front.dropWhile isBlank = front := by
    cases front with
    | nil => rfl
    | cons c front =>
        have hhead := List.head?_dropWhile_not isBlank (text.rdropWhile isBlank)
        rw [dropWhile_rdropWhile, h] at hhead
        exact List.dropWhile_cons_of_neg (by simpa using hhead)
  refine ⟨front.rtakeWhile isBlank, fun c => List.mem_rtakeWhile_imp, ?_⟩
  rw [trimList_eq_rdropWhile, hfront, List.rdropWhile_append_rtakeWhile]

/-- The same characters but for the case of letters, with any blanks around them. -/
def SameWord (s t : String) : Prop :=
  ∃ cs ds, Padded cs s.toList ∧ Padded ds t.toList ∧ cs.map Char.toLower = ds.map Char.toLower

theorem fold_eq_iff {s t : String} : fold s = fold t ↔ SameWord s t := by
  rw [fold, fold, String.ofList_inj]
  constructor
  · exact fun h => ⟨_, _, padded_trimList _, padded_trimList _, h⟩
  · rintro ⟨cs, ds, hs, ht, h⟩
    rw [hs.trimList_eq, ht.trimList_eq, ← trimList_map_toLower, h, trimList_map_toLower]

end Patchbay.Text
