import Mathlib.Data.Set.Basic
import Patchbay.Bench.Basic

/-! # Who has which line

An attempt to take some pins either takes all of them, each free before and on the board, or leaves
nobody with more or fewer lines than before.  Lines of other pins stay as they are, with their
drives and their counts. -/

namespace Patchbay.Bench

/-- The pins whose lines somebody has. -/
def claimed (b : Bench) : Set UInt8 := {p | (b.line p).claimed}

/-! ## Lines after an operation -/

@[simp] theorem line_note (b : Bench) (level : Note.Level) (text : String) :
    (b.note level text).line = b.line := rfl

theorem line_foldl_addNote (notes : List Note) (b : Bench) :
    (notes.foldl addNote b).line = b.line := by
  induction notes generalizing b with
  | nil => rfl
  | cons n notes ih => exact ih (b.addNote n)

theorem line_write (b : Bench) (p q : UInt8) (d : Drive) :
    (b.write p d).line q =
      if p = q then { b.line q with last := some d, writes := (b.line q).writes + 1 }
      else b.line q := by
  rw [write, line_setLine]
  split
  next h => rw [h]
  next => rfl

theorem line_release (b : Bench) (p q : UInt8) :
    (b.release p).line q =
      if p = q then { b.line q with claimed := false, last := none } else b.line q := by
  rw [release, line_setLine]
  split
  next h => rw [h]
  next => rfl

/-- The order in which lines are given back makes no difference, nor does giving one back twice. -/
theorem line_releaseAll (b : Bench) (pins : List UInt8) (q : UInt8) :
    (b.releaseAll pins).line q =
      if q ∈ pins then { b.line q with claimed := false, last := none } else b.line q := by
  induction pins generalizing b with
  | nil => rfl
  | cons p pins ih =>
      rw [show b.releaseAll (p :: pins) = (b.release p).releaseAll pins from rfl, ih,
        line_release]
      by_cases hp : p = q
      · subst hp
        simp
      · simp [hp, Ne.symm hp]

/-! ## Taking pins -/

theorem mem_claimed {b : Bench} {p : UInt8} : p ∈ b.claimed ↔ (b.line p).claimed := .rfl

theorem mem_claimed_iff_of_line {b b' : Bench} {p : UInt8} (h : b'.line p = b.line p) :
    p ∈ b'.claimed ↔ p ∈ b.claimed := by
  rw [mem_claimed, mem_claimed, h]

/-- From the first bench to the second, exactly these pins are taken. -/
structure Takes (pins : List UInt8) (b b' : Bench) : Prop where
  nodup : pins.Nodup
  onBoard : ∀ p ∈ pins, p.toNat ≤ 27
  free : ∀ p ∈ pins, p ∉ b.claimed
  taken : ∀ p ∈ pins, p ∈ b'.claimed
  others : ∀ p ∉ pins, b'.line p = b.line p

/-- From the first bench to the second, no pin changes hands, and at most the lines of these pins
change at all, if nobody had them. -/
structure Restores (pins : List UInt8) (b b' : Bench) : Prop where
  claimed : b'.claimed = b.claimed
  others : ∀ p, p ∈ b.claimed ∨ p ∉ pins → b'.line p = b.line p

variable {pins more : List UInt8} {b b₁ b₂ : Bench}

theorem Restores.of_line (h : b₁.line = b.line) : Restores pins b b₁ where
  claimed := Set.ext fun p => mem_claimed_iff_of_line (congrFun h p)
  others p _ := congrFun h p

theorem Restores.mono (h : Restores pins b b₁) (hs : pins ⊆ more) : Restores more b b₁ where
  claimed := h.claimed
  others p hp := h.others p (hp.imp_right fun hn hm => hn (hs hm))

namespace Takes

theorem nil (h : b₁.line = b.line) : Takes [] b b₁ where
  nodup := .nil
  onBoard := by simp
  free := by simp
  taken := by simp
  others p _ := congrFun h p

theorem claimed (h : Takes pins b b₁) : b₁.claimed = b.claimed ∪ {p | p ∈ pins} := by
  ext p
  by_cases hp : p ∈ pins
  · simp [hp, h.taken p hp]
  · simp [hp, mem_claimed_iff_of_line (h.others p hp)]

theorem append (h : Takes pins b b₁) (h' : Takes more b₁ b₂) : Takes (pins ++ more) b b₂ where
  nodup := by
    refine List.nodup_append.mpr ⟨h.nodup, h'.nodup, ?_⟩
    rintro p hp q hq rfl
    exact h'.free p hq (h.taken p hp)
  onBoard p hp := (List.mem_append.mp hp).elim (h.onBoard p) (h'.onBoard p)
  free p hp := by
    rcases List.mem_append.mp hp with hp | hp
    · exact h.free p hp
    · intro hb
      refine h'.free p hp ?_
      rw [h.claimed]
      exact .inl hb
  taken p hp := by
    rw [h'.claimed, h.claimed]
    rcases List.mem_append.mp hp with hp | hp
    · exact .inl (.inr hp)
    · exact .inr hp
  others p hp := by
    rw [List.mem_append, not_or] at hp
    rw [h'.others p hp.2, h.others p hp.1]

theorem perm (h : Takes pins b b₁) (hp : pins.Perm more) : Takes more b b₁ where
  nodup := hp.nodup_iff.mp h.nodup
  onBoard p hm := h.onBoard p (hp.mem_iff.mpr hm)
  free p hm := h.free p (hp.mem_iff.mpr hm)
  taken p hm := h.taken p (hp.mem_iff.mpr hm)
  others p hm := h.others p (mt hp.mem_iff.mp hm)

/-- Steps that leave all lines alone may follow. -/
theorem then_lines (h : Takes pins b b₁) (hl : b₂.line = b₁.line) : Takes pins b b₂ := by
  simpa using h.append (nil hl)

/-- Steps that leave all lines alone may come before. -/
theorem of_before (h : Takes pins b₁ b₂) (hl : b₁.line = b.line) : Takes pins b b₂ :=
  (nil hl).append h

/-- When an attempt to take more fails, giving back what was taken undoes everything. -/
theorem undo (h : Takes pins b b₁) (hr : Restores more b₁ b₂) :
    Restores (pins ++ more) b (b₂.releaseAll pins) where
  claimed := by
    ext p
    by_cases hp : p ∈ pins
    · have hback : p ∉ (b₂.releaseAll pins).claimed := by simp [mem_claimed, line_releaseAll, hp]
      exact iff_of_false hback (h.free p hp)
    · have hline : (b₂.releaseAll pins).line p = b₂.line p := by
        rw [line_releaseAll, if_neg hp]
      rw [mem_claimed_iff_of_line hline, hr.claimed, mem_claimed_iff_of_line (h.others p hp)]
  others p hp := by
    have hnot : p ∉ pins := by
      rcases hp with hp | hp
      · exact fun hm => h.free p hm hp
      · exact fun hm => hp (List.mem_append_left _ hm)
    -- Whoever had the line at first had it in between as well, so the failed attempt kept it.
    have hkeep : p ∈ b₁.claimed ∨ p ∉ more := by
      rcases hp with hp | hp
      · exact .inl ((mem_claimed_iff_of_line (h.others p hnot)).mpr hp)
      · exact .inr fun hm => hp (List.mem_append_right _ hm)
    rw [line_releaseAll, if_neg hnot, hr.others p hkeep, h.others p hnot]

theorem undo_all (h : Takes pins b b₁) : Restores pins b (b₁.releaseAll pins) := by
  simpa using h.undo (Restores.of_line rfl : Restores [] b₁ b₁)

end Takes

theorem Restores.of_before (h : Restores pins b₁ b₂) (hl : b₁.line = b.line) :
    Restores pins b b₂ :=
  (Takes.nil hl).undo h

end Patchbay.Bench
