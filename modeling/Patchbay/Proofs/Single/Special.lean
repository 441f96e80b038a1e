import Patchbay.Proofs.Single.Signed

/-! # NaN and the two zeros

Arithmetic on NaN gives NaN.  The two zeros are equal to each other and to no other number, and only
a sign of zero can tell apart what is computed from equal numbers. -/

namespace Patchbay.Single

open Float.Model (UnpackedFloat)
open Float.Model.UnpackedFloat (Sign)

variable {x x' y y' : Float32}

/-! ## NaN -/

def nan : Float32 := packed .notANumber

theorem view_nan : view nan = .notANumber := by rfl

theorem eq_nan_of_isNaN (h : x.isNaN) : x = nan := by
  change (view x).isNaN = true at h
  rw [← packed_view x]
  cases hx : view x with
  | notANumber => rfl
  | _ =>
      rw [hx] at h
      exact absurd h Bool.false_ne_true

theorem nan_mul (y : Float32) : nan * y = nan := by
  change packed (UnpackedFloat.mul .binary32 (view nan) (view y)) = nan
  rw [view_nan]
  rfl

theorem mul_nan (x : Float32) : x * nan = nan := by
  change packed (UnpackedFloat.mul .binary32 (view x) (view nan)) = nan
  rw [view_nan]
  cases view x <;> rfl

theorem nan_div (y : Float32) : nan / y = nan := by
  change packed (UnpackedFloat.div .binary32 (view nan) (view y)) = nan
  rw [view_nan]
  rfl

theorem sub_nan (x : Float32) : x - nan = nan := by
  change packed (UnpackedFloat.sub .binary32 (view x) (view nan)) = nan
  rw [view_nan]
  cases view x <;> rfl

theorem not_lt_nan (x : Float32) : ¬ x < nan := by
  rw [lt_iff_view, view_nan]
  cases view x <;> exact Bool.false_ne_true

theorem not_nan_lt (y : Float32) : ¬ nan < y := by
  rw [lt_iff_view, view_nan]
  exact Bool.false_ne_true

theorem not_le_nan (x : Float32) : ¬ x ≤ nan := by
  rw [le_iff_view, view_nan]
  cases view x <;> exact Bool.false_ne_true

/-- NaN passes no bound. -/
theorem clamp_nan (low high : Float32) : clamp low high nan = nan := by
  have hhigh : ¬ nan > high := not_lt_nan high
  unfold clamp
  rw [if_neg (not_nan_lt low), if_neg hhigh]

theorem trunc_nan : trunc nan = nan := by
  unfold trunc
  rw [view_nan]

/-! ## Zeros -/

/-- The same value, but for the sign of zero. -/
def Twins (u v : UnpackedFloat) : Prop := u = v ∨ (∃ sign, u = .zero sign) ∧ ∃ sign, v = .zero sign

namespace Twins

variable {u u' v v' : UnpackedFloat} {format : Float.Model.Format}

theorem mul (h : Twins u u') (h' : Twins v v') : Twins (u.mul format v) (u'.mul format v') := by
  rcases h with rfl | ⟨⟨s, rfl⟩, ⟨t, rfl⟩⟩
  · rcases h' with rfl | ⟨⟨s, rfl⟩, ⟨t, rfl⟩⟩
    · exact .inl rfl
    · cases u with
      | notANumber | infinity => exact .inl rfl
      | zero | finite => exact .inr ⟨⟨_, rfl⟩, ⟨_, rfl⟩⟩
  · rcases h' with rfl | ⟨⟨s', rfl⟩, ⟨t', rfl⟩⟩
    · cases v with
      | notANumber | infinity => exact .inl rfl
      | zero | finite => exact .inr ⟨⟨_, rfl⟩, ⟨_, rfl⟩⟩
    · exact .inr ⟨⟨_, rfl⟩, ⟨_, rfl⟩⟩

theorem div (h : Twins u u') (v : UnpackedFloat) : Twins (u.div format v) (u'.div format v) := by
  rcases h with rfl | ⟨⟨s, rfl⟩, ⟨t, rfl⟩⟩
  · exact .inl rfl
  · cases v with
    | notANumber | zero => exact .inl rfl
    | infinity | finite => exact .inr ⟨⟨_, rfl⟩, ⟨_, rfl⟩⟩

theorem neg (h : Twins u u') : Twins u.neg u'.neg := by
  rcases h with rfl | ⟨⟨s, rfl⟩, ⟨t, rfl⟩⟩
  · exact .inl rfl
  · exact .inr ⟨⟨_, rfl⟩, ⟨_, rfl⟩⟩

theorem compare_left (h : Twins u u') (v : UnpackedFloat) : u.compare v = u'.compare v := by
  rcases h with rfl | ⟨⟨s, rfl⟩, ⟨t, rfl⟩⟩
  · rfl
  · cases v with
    | notANumber | zero => rfl
    | infinity sign | finite sign => cases sign <;> rfl

theorem compare_right (h : Twins v v') (u : UnpackedFloat) : u.compare v = u.compare v' := by
  rcases h with rfl | ⟨⟨s, rfl⟩, ⟨t, rfl⟩⟩
  · rfl
  · cases u with
    | notANumber | zero => rfl
    | infinity sign | finite sign => cases sign <;> rfl

/-- What compares as equal is the same, but for the sign of zero. -/
theorem of_compare (h : u.compare v = some .eq) : Twins u v := by
  have hmagnitudes {m n : ℕ} {e f : ℤ} (h : (compare e f).then (compare m n) = .eq) :
      m = n ∧ e = f := by
    rw [Ordering.then_eq_eq, compare_eq_iff_eq, compare_eq_iff_eq] at h
    exact h.symm
  cases u with
  | notANumber => exact nomatch h
  | infinity sign =>
      cases v with
      | infinity sign' => cases sign <;> cases sign' <;> first | exact .inl rfl | exact nomatch h
      | notANumber | zero | finite => cases sign <;> exact nomatch h
  | zero s =>
      cases v with
      | zero t => exact .inr ⟨⟨s, rfl⟩, ⟨t, rfl⟩⟩
      | notANumber => exact nomatch h
      | infinity sign | finite sign => cases sign <;> exact nomatch h
  | finite sign m e hm =>
      cases v with
      | notANumber => exact nomatch h
      | zero => cases sign <;> exact nomatch h
      | infinity sign' => cases sign' <;> exact nomatch h
      | finite sign' n f hn =>
          cases sign with
          | negative =>
              cases sign' with
              | negative =>
                  have hcompare := Option.some.inj h
                  rw [Ordering.swap_eq_eq] at hcompare
                  obtain ⟨rfl, rfl⟩ := hmagnitudes hcompare
                  exact .inl rfl
              | positive => exact nomatch h
          | positive =>
              cases sign' with
              | negative => exact nomatch h
              | positive =>
                  obtain ⟨rfl, rfl⟩ := hmagnitudes (Option.some.inj h)
                  exact .inl rfl

end Twins

/-- The same number, but for the sign of zero. -/
def Same (x y : Float32) : Prop := Twins (view x) (view y)

namespace Same

theorem refl (x : Float32) : Same x x := .inl rfl

theorem of_eq (h : x = y) : Same x y := h ▸ .refl x

theorem of_beq (h : x == y) : Same x y := by
  have hview : (view x).beq (view y) = true := h
  exact .of_compare (beq_iff_eq.mp hview)

theorem eq_or_beq (h : Same x y) : x = y ∨ x == y := by
  rcases h with h | ⟨⟨s, hx⟩, ⟨t, hy⟩⟩
  · left
    rw [← packed_view x, h, packed_view]
  · right
    change (view x).beq (view y) = true
    rw [hx, hy]
    rfl

theorem of_packed {u v : UnpackedFloat} (h : Twins u v) : Same (packed u) (packed v) := by
  rcases h with rfl | ⟨⟨s, rfl⟩, ⟨t, rfl⟩⟩
  · exact .refl _
  · exact .inr ⟨⟨s, view_packed_zero s⟩, ⟨t, view_packed_zero t⟩⟩

theorem mul (h : Same x x') (h' : Same y y') : Same (x * y) (x' * y') := of_packed (Twins.mul h h')

theorem div (h : Same x x') (y : Float32) : Same (x / y) (x' / y) := of_packed (Twins.div h _)

theorem neg (h : Same x x') : Same (-x) (-x') := of_packed (Twins.neg h)

theorem lt_left_iff (h : Same x x') (y : Float32) : x < y ↔ x' < y := by
  rw [lt_iff_view, lt_iff_view, UnpackedFloat.lt, UnpackedFloat.lt, Twins.compare_left h]

theorem lt_right_iff (h : Same y y') (x : Float32) : x < y ↔ x < y' := by
  rw [lt_iff_view, lt_iff_view, UnpackedFloat.lt, UnpackedFloat.lt, Twins.compare_right h]

theorem le_right_iff (h : Same y y') (x : Float32) : x ≤ y ↔ x ≤ y' := by
  rw [le_iff_view, le_iff_view, UnpackedFloat.le, UnpackedFloat.le, Twins.compare_right h]

theorem ite {c c' : Prop} [Decidable c] [Decidable c'] (hc : c ↔ c') (h : Same x x')
    (h' : Same y y') : Same (if c then x else y) (if c' then x' else y') := by
  by_cases hcase : c
  · rw [if_pos hcase, if_pos (hc.mp hcase)]
    exact h
  · rw [if_neg hcase, if_neg (mt hc.mpr hcase)]
    exact h'

theorem clamp (h : Same x x') (low high : Float32) :
    Same (Single.clamp low high x) (Single.clamp low high x') := by
  have hlow := ite (h.lt_left_iff low) (.refl low) h
  exact ite (hlow.lt_right_iff high) (.refl high) hlow

theorem trunc (h : Same x x') : Same (Single.trunc x) (Single.trunc x') := by
  rcases h with h | ⟨⟨s, hx⟩, ⟨t, hx'⟩⟩
  · rw [← packed_view x, h, packed_view]
    exact .refl _
  · have hsame {x : Float32} {sign : Sign} (hx : view x = .zero sign) : Single.trunc x = x := by
      unfold Single.trunc
      rw [hx]
    rw [hsame hx, hsame hx']
    exact .inr ⟨⟨s, hx⟩, ⟨t, hx'⟩⟩

/-- What is added to a number other than zero leaves no sign of zero. -/
theorem add_eq {sign : Sign} {m : ℕ} {e : ℤ} {hm : 0 < m} (h : Same x x')
    (hy : view y = .finite sign m e hm) : x + y = x' + y := by
  change packed (UnpackedFloat.add .binary32 (view x) (view y)) =
    packed (UnpackedFloat.add .binary32 (view x') (view y))
  rcases h with h | ⟨⟨s, hx⟩, ⟨t, hx'⟩⟩
  · rw [h]
  · rw [hx, hx', hy]
    rfl

theorem sub_eq {sign : Sign} {m : ℕ} {e : ℤ} {hm : 0 < m} (h : Same y y')
    (hx : view x = .finite sign m e hm) : x - y = x - y' := by
  change packed (UnpackedFloat.sub .binary32 (view x) (view y)) =
    packed (UnpackedFloat.sub .binary32 (view x) (view y'))
  rcases h with h | ⟨⟨s, hy⟩, ⟨t, hy'⟩⟩
  · rw [h]
  · rw [hy, hy', hx]
    rfl

end Same

end Patchbay.Single
