import Patchbay.Proofs.Gamepad.Rejecting

/-! # Encoding

Events that are written are read again in their order, and records that are read are written as the
same bytes.  Only the bit that marks a report of the state at the start is lost, either way. -/

namespace Patchbay.Gamepad

namespace Event

/-- The event with the mark of a report cleared. -/
def cleared (e : Event) : Event := { e with kind := e.kind &&& 0x7f }

/-- The bytes with the marks of their records cleared; the kind is the seventh byte of eight. -/
def clearedBytes (buffer : List UInt8) : List UInt8 :=
  buffer.mapIdx fun i byte => if i % 8 = 6 then byte &&& 0x7f else byte

/-! ## Events to bytes -/

theorem records_eq_ok_iff {buffer : List UInt8} {events : List Event} :
    records buffer = .ok events ↔ Spell buffer events := by
  rw [spell_iff, records]
  split
  next hcut =>
    refine iff_of_false ?_ fun h => hcut h.1
    rintro ⟨⟩
  next hwhole =>
    rw [Except.ok.injEq, eq_comm, and_iff_right (Decidable.not_not.mp hwhole)]

theorem spell_encode (events : List Event) : Spell (encode events) (events.map cleared) := by
  induction events with
  | nil => exact .nil
  | cons e rest ih =>
      refine .cons ?timestamp ?data (toNat_unmarked e.kind) rfl ih
      case timestamp =>
        have hlt := e.timestamp.toNat_lt
        simp only [cleared, UInt32.toNat_toUInt8, UInt32.toNat_shiftRight, UInt32.reduceToNat,
          Nat.reduceMod, Nat.shiftRight_eq_div_pow]
        omega
      case data =>
        have hlt := e.data.toNat_lt
        simp only [cleared, UInt16.toNat_toUInt8, UInt16.toNat_shiftRight, UInt16.reduceToNat,
          Nat.reduceMod, Nat.shiftRight_eq_div_pow]
        omega

theorem cleared_eq_self_iff {e : Event} : e.cleared = e ↔ e.kind < 0x80 := by
  have hkind : (e.kind &&& 0x7f).toNat = e.kind.toNat % 2 ^ 7 := toNat_unmarked e.kind
  rw [cleared, Event.mk.injEq, ← UInt8.toNat_inj, hkind, UInt8.lt_iff_toNat_lt]
  simp

/-! ## Bytes to events -/

theorem toBytes_eq {t0 t1 t2 t3 d0 d1 kind id : UInt8} {e : Event}
    (htimestamp : e.timestamp.toNat =
      t0.toNat + 2 ^ 8 * t1.toNat + 2 ^ 16 * t2.toNat + 2 ^ 24 * t3.toNat)
    (hdata : e.data.toNat = d0.toNat + 2 ^ 8 * d1.toNat)
    (hkind : e.kind.toNat = kind.toNat % 2 ^ 7) (hid : e.id = id) :
    e.toBytes = [t0, t1, t2, t3, d0, d1, kind &&& 0x7f, id] := by
  have h0 := t0.toNat_lt
  have h1 := t1.toNat_lt
  have h2 := t2.toNat_lt
  have h3 := t3.toNat_lt
  have h4 := d0.toNat_lt
  have h5 := d1.toNat_lt
  have hmask : (kind &&& 0x7f).toNat = kind.toNat % 2 ^ 7 := toNat_unmarked kind
  simp only [toBytes, List.cons.injEq, ← UInt8.toNat_inj, UInt32.toNat_toUInt8,
    UInt32.toNat_shiftRight, UInt32.reduceToNat, UInt16.toNat_toUInt8, UInt16.toNat_shiftRight,
    UInt16.reduceToNat, Nat.reduceMod, Nat.shiftRight_eq_div_pow, htimestamp, hdata, hkind, hid,
    hmask, and_true]
  omega

theorem clearedBytes_append {record : List UInt8} (hr : record.length = 8) (rest : List UInt8) :
    clearedBytes (record ++ rest) = clearedBytes record ++ clearedBytes rest := by
  simp only [clearedBytes, List.mapIdx_append, hr, Nat.add_mod_right]

theorem Spell.encode_eq {buffer : List UInt8} {events : List Event} (h : Spell buffer events) :
    encode events = clearedBytes buffer := by
  induction h with
  | nil => rfl
  | @cons t0 t1 t2 t3 d0 d1 kind id rest e events htimestamp hdata hkind hid _ ih =>
      have hrecord : e.toBytes = clearedBytes [t0, t1, t2, t3, d0, d1, kind, id] :=
        toBytes_eq htimestamp hdata hkind hid
      calc encode (e :: events) = e.toBytes ++ encode events := List.flatMap_cons ..
        _ = clearedBytes [t0, t1, t2, t3, d0, d1, kind, id] ++ clearedBytes rest := by
          rw [hrecord, ih]
        _ = _ := (clearedBytes_append rfl rest).symm

/-- Events that are written are read again but for the marks of reports, so exactly those without a
mark come back unchanged.  Bytes are read when they are whole records, and then their events are
written as the same bytes but for the marks. -/
theorem round_trip_but_for_marks :
    (∀ events, records (encode events) = .ok (events.map cleared)) ∧
    (∀ events, records (encode events) = .ok events ↔ ∀ e ∈ events, e.kind < 0x80) ∧
    ∀ buffer, buffer.length % 8 = 0 ↔
      ∃ events, records buffer = .ok events ∧ encode events = clearedBytes buffer := by
  have hread (events : List Event) : records (encode events) = .ok (events.map cleared) :=
    records_eq_ok_iff.mpr (spell_encode events)
  refine ⟨hread, fun events => ?unchanged, fun buffer => ⟨fun hlength => ?written, ?whole⟩⟩
  case unchanged =>
    have hid : events.map cleared = events ↔ ∀ e ∈ events, e.cleared = e := by
      rw [← List.map_inj_left, List.map_id']
    rw [hread, Except.ok.injEq, hid]
    exact forall₂_congr fun e _ => cleared_eq_self_iff
  case written =>
    have hspell := spell_ofBytes (whole_of_length_mod hlength)
    exact ⟨_, records_eq_ok_iff.mpr hspell, hspell.encode_eq⟩
  case whole =>
    rintro ⟨events, hrecords, _⟩
    exact (records_eq_ok_iff.mp hrecords).whole.length_mod

/-- A press that is marked as a report, then a stick far to the left. -/
theorem round_trip_but_for_marks_press_and_stick :
    let press : Event := ⟨0x12345678, 1, 0x81, 5⟩
    let left : Event := ⟨7, 0x8000, 2, 0⟩
    let bytes : List UInt8 :=
      [0x78, 0x56, 0x34, 0x12, 1, 0, 0x81, 5, 7, 0, 0, 0, 0, 0x80, 2, 0]
    (∀ e ∈ [left], e.kind < 0x80) ∧ records (encode [left]) = .ok [left] ∧
      records (encode [press, left]) = .ok [{ press with kind := 1 }, left] ∧
      bytes.length % 8 = 0 ∧
      ∃ events, records bytes = .ok events ∧ encode events = bytes.set 6 1 := by
  intro press left bytes
  obtain ⟨hread, hunchanged, hwritten⟩ := round_trip_but_for_marks
  have hleft : ∀ e ∈ [left], e.kind < 0x80 := by decide
  have hlength : bytes.length % 8 = 0 := by decide
  have hmarks : [press, left].map cleared = [{ press with kind := 1 }, left] := by decide
  exact ⟨hleft, (hunchanged [left]).mpr hleft, hmarks ▸ hread [press, left], hlength,
    (hwritten bytes).mp hlength⟩

end Event

end Patchbay.Gamepad
