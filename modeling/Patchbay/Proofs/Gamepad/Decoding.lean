import Patchbay.Gamepad.Snapshot

/-! # Decoding piece by piece

Decoding acts on snapshots: one buffer after another is the same as both at once, whether or not
there is a fault in either.  In a buffer with a fault there is a first bad record. -/

namespace Patchbay.Gamepad

namespace Event

/-- A buffer of records, none of them cut short. -/
inductive Whole : List UInt8 → Prop
  | nil : Whole []
  | cons {record rest : List UInt8} : record.length = 8 → Whole rest → Whole (record ++ rest)

theorem Whole.length_mod {buffer : List UInt8} (h : Whole buffer) : buffer.length % 8 = 0 := by
  induction h with
  | nil => rfl
  | cons hr _ ih =>
      rw [List.length_append]
      omega

theorem whole_of_length_mod {buffer : List UInt8} (h : buffer.length % 8 = 0) : Whole buffer := by
  induction hn : buffer.length using Nat.strongRecOn generalizing buffer with
  | ind n ih =>
      by_cases hlen : buffer.length < 8
      · rw [List.length_eq_zero_iff.mp (by omega : buffer.length = 0)]
        exact .nil
      · rw [← List.take_append_drop 8 buffer]
        have hrest : (buffer.drop 8).length = n - 8 := by rw [List.length_drop, hn]
        exact .cons (by rw [List.length_take]; omega) (ih _ (by omega) (by omega) hrest)

theorem whole_iff {buffer : List UInt8} : Whole buffer ↔ buffer.length % 8 = 0 :=
  ⟨Whole.length_mod, whole_of_length_mod⟩

theorem Whole.append {a b : List UInt8} (ha : Whole a) (hb : Whole b) : Whole (a ++ b) := by
  rw [whole_iff, List.length_append, Nat.add_mod, ha.length_mod, hb.length_mod]

theorem Whole.of_append {a b : List UInt8} (h : Whole (a ++ b)) (ha : Whole a) : Whole b := by
  have hab := h.length_mod
  have ha := ha.length_mod
  rw [List.length_append] at hab
  exact whole_iff.mpr (by omega)

theorem ofBytes_record_append {record : List UInt8} (hr : record.length = 8)
    (rest : List UInt8) : ofBytes (record ++ rest) = ofBytes record ++ ofBytes rest := by
  match record, hr with
  | [t0, t1, t2, t3, d0, d1, kind, id], _ => rfl

theorem ofBytes_append {a : List UInt8} (ha : Whole a) (b : List UInt8) :
    ofBytes (a ++ b) = ofBytes a ++ ofBytes b := by
  induction ha with
  | nil => rfl
  | cons hr _ ih =>
      rw [List.append_assoc, ofBytes_record_append hr, ih, ofBytes_record_append hr,
        List.append_assoc]

end Event

open Event (Whole whole_iff)

namespace Snapshot

variable {s s₁ : Snapshot} {a b : List UInt8} {n : Nat} {cause : ProtocolError}

theorem applyAll_append (s : Snapshot) (xs ys : List Event) :
    s.applyAll (xs ++ ys) = match s.applyAll xs with
      | .error cause s₁ => .error cause s₁
      | .ok n s₁ => match s₁.applyAll ys with
        | .error cause s₂ => .error cause s₂
        | .ok m s₂ => .ok (n + m) s₂ := by
  induction xs generalizing s with
  | nil =>
      simp only [List.nil_append, applyAll]
      cases s.applyAll ys <;> simp
  | cons x xs ih =>
      simp only [List.cons_append, applyAll]
      cases s.apply x with
      | error cause => rfl
      | ok next =>
          simp only [ih]
          cases next.applyAll xs with
          | error cause s₁ => rfl
          | ok n s₁ =>
              simp only
              cases s₁.applyAll ys with
              | error cause s₂ => rfl
              | ok m s₂ => simp [Nat.add_right_comm]

theorem decode_of_whole (s : Snapshot) (h : Whole a) :
    s.decode a = s.applyAll (Event.ofBytes a) := by
  rw [decode, Event.records, if_neg (not_not_intro h.length_mod)]

theorem whole_of_decode_ok (h : s.decode a = .ok n s₁) : Whole a := by
  refine Event.whole_of_length_mod (Decidable.byContradiction fun hlen => ?_)
  rw [decode, Event.records, if_pos hlen] at h
  exact nomatch h

theorem decode_append (s : Snapshot) (ha : Whole a) (hb : Whole b) :
    s.decode (a ++ b) = match s.decode a with
      | .error cause s₁ => .error cause s₁
      | .ok n s₁ => match s₁.decode b with
        | .error cause s₂ => .error cause s₂
        | .ok m s₂ => .ok (n + m) s₂ := by
  simp only [s.decode_of_whole (ha.append hb), Event.ofBytes_append ha, applyAll_append,
    decode_of_whole _ ha, decode_of_whole _ hb]

theorem decode_append_ok {m : Nat} {s₂ : Snapshot} (ha : s.decode a = .ok n s₁)
    (hb : s₁.decode b = .ok m s₂) : s.decode (a ++ b) = .ok (n + m) s₂ := by
  rw [s.decode_append (whole_of_decode_ok ha) (whole_of_decode_ok hb), ha]
  simp only [hb]

/-- After what is decoded without a fault, the fault is in the rest. -/
theorem decode_append_error_iff (hb : Whole b) {s₂ : Snapshot} (ha : s.decode a = .ok n s₁) :
    s.decode (a ++ b) = .error cause s₂ ↔ s₁.decode b = .error cause s₂ := by
  rw [s.decode_append (whole_of_decode_ok ha) hb, ha]
  simp only
  cases s₁.decode b <;> simp

/-- What comes after a fault does not matter. -/
theorem decode_error_append (ha : Whole a) (hb : Whole b) (hfault : s.decode a = .error cause s₁) :
    s.decode (a ++ b) = .error cause s₁ := by
  rw [s.decode_append ha hb, hfault]

/-- A bad record leaves the snapshot alone. -/
theorem decode_record_error (hr : a.length = 8) (h : s.decode a = .error cause s₁) : s₁ = s := by
  obtain ⟨e, he⟩ : ∃ e, Event.ofBytes a = [e] := by
    match a, hr with
    | [t0, t1, t2, t3, d0, d1, kind, id], _ => exact ⟨_, rfl⟩
  rw [s.decode_of_whole (whole_iff.mpr (by rw [hr])), he] at h
  simp only [applyAll] at h
  cases hone : s.apply e with
  | error cause' =>
      rw [hone] at h
      cases h
      rfl
  | ok next =>
      rw [hone] at h
      exact nomatch h

/-- The first bad record of a buffer: those before it are decoded, and it is the fault. -/
theorem exists_bad_record (ha : Whole a) (h : s.decode a = .error cause s₁) :
    ∃ good bad rest n, a = good ++ bad ++ rest ∧ bad.length = 8 ∧ s.decode good = .ok n s₁ ∧
      s₁.decode bad = .error cause s₁ := by
  induction ha generalizing s with
  | nil => exact nomatch h
  | @cons record rest hr hrest ih =>
      have hwhole : Whole record := whole_iff.mpr (by rw [hr])
      cases hrecord : s.decode record with
      | error cause' s' =>
          obtain rfl := decode_record_error hr hrecord
          rw [decode_error_append hwhole hrest hrecord] at h
          cases h
          exact ⟨[], record, rest, 0, rfl, hr, rfl, hrecord⟩
      | ok m s' =>
          obtain ⟨good, bad, after, n, rfl, hbad, hgood, hcause⟩ :=
            ih ((decode_append_error_iff hrest hrecord).mp h)
          exact ⟨record ++ good, bad, after, m + n, by simp, hbad, decode_append_ok hrecord hgood,
            hcause⟩

end Snapshot

end Patchbay.Gamepad
