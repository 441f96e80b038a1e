import Mathlib.Algebra.Group.Nat.Defs
import Patchbay.Proofs.Gamepad.Decoding
import Patchbay.Proofs.Gamepad.LastEvent
import Patchbay.Proofs.Outcome

/-! # Bad records

Whether a record can be applied, and which fault it has, does not depend on the snapshot.  Decoding
applies the records before the first bad one, reports its fault, and looks no further. -/

namespace Patchbay.Gamepad

namespace Event

/-! ## Records in a buffer -/

/-- The bytes spell the events, eight bytes each: time stamp and data with their low bytes first,
then the kind, whose top bit does not count, and the number. -/
inductive Spell : List UInt8 → List Event → Prop
  | nil : Spell [] []
  | cons {t0 t1 t2 t3 d0 d1 kind id : UInt8} {rest : List UInt8} {e : Event} {events : List Event}
      (htimestamp : e.timestamp.toNat =
        t0.toNat + 2 ^ 8 * t1.toNat + 2 ^ 16 * t2.toNat + 2 ^ 24 * t3.toNat)
      (hdata : e.data.toNat = d0.toNat + 2 ^ 8 * d1.toNat)
      (hkind : e.kind.toNat = kind.toNat % 2 ^ 7) (hid : e.id = id) (h : Spell rest events) :
      Spell (t0 :: t1 :: t2 :: t3 :: d0 :: d1 :: kind :: id :: rest) (e :: events)

theorem toNat_unmarked (kind : UInt8) : (unmarked kind).toNat = kind.toNat % 2 ^ 7 := by
  rw [unmarked, UInt8.toNat_and]
  exact Nat.and_two_pow_sub_one_eq_mod kind.toNat 7

/-- Bits above a number are added to it. -/
theorem or_shiftLeft {low k : Nat} (h : low < 2 ^ k) (high : Nat) :
    low ||| high <<< k = low + 2 ^ k * high := by
  rw [Nat.shiftLeft_eq, Nat.or_comm, Nat.mul_comm, ← Nat.two_pow_add_eq_or_of_lt h, Nat.add_comm]

theorem toNat_data (d0 d1 : UInt8) :
    (d0.toUInt16 ||| d1.toUInt16 <<< 8).toNat = d0.toNat + 2 ^ 8 * d1.toNat := by
  have h0 := d0.toNat_lt
  have h1 := d1.toNat_lt
  have hshift : (d1.toUInt16 <<< 8).toNat = d1.toNat <<< 8 := by
    rw [UInt16.toNat_shiftLeft, UInt8.toNat_toUInt16]
    change d1.toNat <<< 8 % 2 ^ 16 = d1.toNat <<< 8
    rw [Nat.shiftLeft_eq]
    omega
  rw [UInt16.toNat_or, hshift, UInt8.toNat_toUInt16, or_shiftLeft h0]

theorem toNat_timestamp (t0 t1 t2 t3 : UInt8) :
    (t0.toUInt32 ||| t1.toUInt32 <<< 8 ||| t2.toUInt32 <<< 16 ||| t3.toUInt32 <<< 24).toNat =
      t0.toNat + 2 ^ 8 * t1.toNat + 2 ^ 16 * t2.toNat + 2 ^ 24 * t3.toNat := by
  have h0 := t0.toNat_lt
  have h1 := t1.toNat_lt
  have h2 := t2.toNat_lt
  have hshift {t : UInt8} {k : UInt32} (hk : k.toNat ≤ 24) :
      (t.toUInt32 <<< k).toNat = t.toNat <<< k.toNat := by
    rw [UInt32.toNat_shiftLeft, UInt8.toNat_toUInt32, Nat.mod_eq_of_lt (show k.toNat < 32 by omega)]
    refine Nat.mod_eq_of_lt ?_
    calc t.toNat <<< k.toNat = t.toNat * 2 ^ k.toNat := Nat.shiftLeft_eq ..
      _ < 2 ^ 8 * 2 ^ 24 :=
        Nat.mul_lt_mul_of_lt_of_le t.toNat_lt (Nat.pow_le_pow_right (by decide) hk) (by decide)
      _ = 2 ^ 32 := by decide
  have h01 : t0.toNat + 2 ^ 8 * t1.toNat < 2 ^ 16 := by omega
  have h012 : t0.toNat + 2 ^ 8 * t1.toNat + 2 ^ 16 * t2.toNat < 2 ^ 24 := by omega
  have h8 : (8 : UInt32).toNat = 8 := rfl
  have h16 : (16 : UInt32).toNat = 16 := rfl
  have h24 : (24 : UInt32).toNat = 24 := rfl
  rw [UInt32.toNat_or, UInt32.toNat_or, UInt32.toNat_or, hshift (by omega), hshift (by omega),
    hshift (by omega), UInt8.toNat_toUInt32, h8, h16, h24, or_shiftLeft h0, or_shiftLeft h01,
    or_shiftLeft h012]

theorem spell_ofBytes {buffer : List UInt8} (h : Whole buffer) : Spell buffer (ofBytes buffer) := by
  induction h with
  | nil => exact .nil
  | @cons record rest hr _ ih =>
      match record, hr with
      | [t0, t1, t2, t3, d0, d1, kind, id], _ =>
          exact .cons (toNat_timestamp ..) (toNat_data ..) (toNat_unmarked kind) rfl ih

theorem Spell.whole {buffer : List UInt8} {events : List Event} (h : Spell buffer events) :
    Whole buffer := by
  induction h with
  | nil => exact .nil
  | @cons t0 t1 t2 t3 d0 d1 kind id _ _ _ _ _ _ _ _ ih =>
      exact @Whole.cons [t0, t1, t2, t3, d0, d1, kind, id] _ rfl ih

theorem Spell.eq_ofBytes {buffer : List UInt8} {events : List Event} (h : Spell buffer events) :
    events = ofBytes buffer := by
  induction h with
  | nil => rfl
  | cons htimestamp hdata hkind hid _ ih =>
      rw [ofBytes, ← ih, List.cons.injEq, Event.mk.injEq]
      refine ⟨⟨UInt32.toNat_inj.mp ?_, UInt16.toNat_inj.mp ?_, UInt8.toNat_inj.mp ?_, hid⟩, rfl⟩
      · rw [htimestamp, toNat_timestamp]
      · rw [hdata, toNat_data]
      · rw [hkind, toNat_unmarked]

/-- The bytes of whole records, and no others, spell events. -/
theorem spell_iff {buffer : List UInt8} {events : List Event} :
    Spell buffer events ↔ buffer.length % 8 = 0 ∧ events = ofBytes buffer := by
  constructor
  · exact fun h => ⟨h.whole.length_mod, h.eq_ofBytes⟩
  · rintro ⟨hlength, rfl⟩
    exact spell_ofBytes (whole_of_length_mod hlength)

/-! ## Faults -/

/-- The fault of an event that cannot be applied.  Its kind comes first; of a button, the data comes
before the number. -/
inductive Bad (e : Event) : ProtocolError → Prop
  | kind (hbutton : unmarked e.kind ≠ 1) (haxis : unmarked e.kind ≠ 2) :
      Bad e (.unknownEventType (unmarked e.kind))
  | data (hbutton : unmarked e.kind = 1) (hreleased : e.data ≠ 0) (hpressed : e.data ≠ 1) :
      Bad e (.invalidButtonData e.id e.data)
  | button (hbutton : unmarked e.kind = 1) (hdata : e.data = 0 ∨ e.data = 1) (h : 12 < e.id) :
      Bad e (.unknownButton e.id)
  | axis (haxis : unmarked e.kind = 2) (h : 7 < e.id) : Bad e (.unknownAxis e.id)

theorem valid_or_bad (e : Event) : e.Valid ∨ ∃ cause, e.Bad cause := by
  by_cases hbutton : unmarked e.kind = 1
  · by_cases hdata : e.data = 0 ∨ e.data = 1
    · by_cases hid : e.id ≤ 12
      · exact .inl (.inl ⟨hbutton, hid, hdata⟩)
      · exact .inr ⟨_, .button hbutton hdata (UInt8.not_le.mp hid)⟩
    · exact .inr ⟨_, .data hbutton (fun h => hdata (.inl h)) fun h => hdata (.inr h)⟩
  · by_cases haxis : unmarked e.kind = 2
    · by_cases hid : e.id ≤ 7
      · exact .inl (.inr ⟨haxis, hid⟩)
      · exact .inr ⟨_, .axis haxis (UInt8.not_le.mp hid)⟩
    · exact .inr ⟨_, .kind hbutton haxis⟩

end Event

theorem Button.ofId_of_lt {id : UInt8} (h : 12 < id) : ofId id = .error (.unknownButton id) := by
  unfold ofId
  split <;> first | rfl | exact absurd h (by decide)

theorem Axis.ofId_of_lt {id : UInt8} (h : 7 < id) : ofId id = .error (.unknownAxis id) := by
  unfold ofId
  split <;> first | rfl | exact absurd h (by decide)

namespace Snapshot

open Event (Spell)
open Outcome (bind_eq_ok_iff)

theorem apply_of_bad (s : Snapshot) {e : Event} {cause : ProtocolError} (h : e.Bad cause) :
    s.apply e = .error cause := by
  simp only [apply, Event.type, EventType.ofRaw]
  cases h with
  | kind hbutton haxis =>
      rw [if_neg hbutton, if_neg haxis]
      rfl
  | data hbutton hreleased hpressed =>
      rw [if_pos hbutton]
      simp only [bind, Except.bind]
      rw [if_pos ⟨hreleased, hpressed⟩]
      rfl
  | button hbutton hdata hid =>
      have hknown : ¬ (e.data ≠ 0 ∧ e.data ≠ 1) := fun h => hdata.elim h.1 h.2
      simp only [hbutton, hknown, Button.ofId_of_lt hid, bind, Except.bind, if_true, if_false]
  | axis haxis hid =>
      simp only [haxis, Axis.ofId_of_lt hid, bind, Except.bind]
      rfl

theorem apply_eq_error_iff {s : Snapshot} {e : Event} {cause : ProtocolError} :
    s.apply e = .error cause ↔ e.Bad cause := by
  refine ⟨fun h => ?_, s.apply_of_bad⟩
  rcases e.valid_or_bad with hvalid | ⟨other, hbad⟩
  · obtain ⟨s', happly, _⟩ := s.apply_told hvalid
    exact nomatch h.symm.trans happly
  · obtain rfl : cause = other := Except.error.inj (h.symm.trans (s.apply_of_bad hbad))
    exact hbad

/-! ## Many records -/

/-- Events that are applied one after another are not bad, not one of them. -/
theorem not_bad_of_foldlM {s s' : Snapshot} {events : List Event}
    (h : events.foldlM apply s = .ok s') : ∀ e ∈ events, ∀ cause, ¬ e.Bad cause := by
  induction events generalizing s with
  | nil => simp
  | cons e rest ih =>
      rw [List.foldlM_cons] at h
      obtain ⟨s₁, hone, hrest⟩ := bind_eq_ok_iff.mp h
      intro f hf cause hbad
      rcases List.mem_cons.mp hf with rfl | hf
      · exact nomatch hone.symm.trans (s.apply_of_bad hbad)
      · exact ih hrest f hf cause hbad

theorem applyAll_eq_ok_iff {s s' : Snapshot} {events : List Event} {n : Nat} :
    s.applyAll events = .ok n s' ↔ n = events.length ∧ events.foldlM apply s = .ok s' := by
  induction events generalizing s n with
  | nil => simp [applyAll, pure, Except.pure, eq_comm]
  | cons e rest ih =>
      rw [applyAll, List.foldlM_cons]
      cases s.apply e with
      | error cause => simp [bind, Except.bind]
      | ok next =>
          change _ ↔ n = rest.length + 1 ∧ rest.foldlM apply next = .ok s'
          constructor
          · intro h
            cases hrest : next.applyAll rest with
            | error cause last => simp [hrest] at h
            | ok m last =>
                simp only [hrest] at h
                cases h
                obtain ⟨rfl, hfold⟩ := ih.mp hrest
                exact ⟨rfl, hfold⟩
          · rintro ⟨rfl, hfold⟩
            simp only [ih.mpr ⟨rfl, hfold⟩]

/-- The first event that cannot be applied is the fault; those before it are applied. -/
theorem applyAll_eq_error_iff {s s' : Snapshot} {events : List Event} {cause : ProtocolError} :
    s.applyAll events = .error cause s' ↔ ∃ good bad rest, events = good ++ bad :: rest ∧
      good.foldlM apply s = .ok s' ∧ bad.Bad cause := by
  constructor
  · intro h
    induction events generalizing s with
    | nil => cases h
    | cons e rest ih =>
        rw [applyAll] at h
        cases hone : s.apply e with
        | error first =>
            rw [hone] at h
            cases h
            exact ⟨[], e, rest, rfl, rfl, apply_eq_error_iff.mp hone⟩
        | ok next =>
            simp only [hone] at h
            cases hrest : next.applyAll rest with
            | ok n last =>
                rw [hrest] at h
                cases h
            | error first last =>
                rw [hrest] at h
                cases h
                obtain ⟨good, bad, after, rfl, hgood, hbad⟩ := ih hrest
                refine ⟨e :: good, bad, after, rfl, ?_, hbad⟩
                rw [List.foldlM_cons, hone]
                exact hgood
  · rintro ⟨good, bad, rest, rfl, hgood, hbad⟩
    simp only [applyAll_append, applyAll_eq_ok_iff.mpr ⟨rfl, hgood⟩, applyAll, s'.apply_of_bad hbad]

/-- A buffer that is not made of records is a fault before any of it is applied. -/
theorem decode_eq_error_iff {s s' : Snapshot} {buffer : List UInt8} {cause : ProtocolError} :
    s.decode buffer = .error cause s' ↔
      (buffer.length % 8 ≠ 0 ∧ cause = .misaligned buffer.length ∧ s' = s) ∨
      ∃ good bad rest, Spell buffer (good ++ bad :: rest) ∧ (∀ e ∈ good, ∀ c, ¬ e.Bad c) ∧
        bad.Bad cause ∧ good.foldlM apply s = .ok s' := by
  by_cases hlength : buffer.length % 8 = 0
  · rw [s.decode_of_whole (Event.whole_of_length_mod hlength), applyAll_eq_error_iff]
    constructor
    · rintro ⟨good, bad, rest, hevents, hgood, hbad⟩
      have hspell := Event.spell_iff.mpr ⟨hlength, hevents.symm⟩
      exact .inr ⟨good, bad, rest, hspell, not_bad_of_foldlM hgood, hbad, hgood⟩
    · rintro (⟨hcut, _⟩ | ⟨good, bad, rest, hspell, _, hbad, hgood⟩)
      · exact absurd hlength hcut
      · exact ⟨good, bad, rest, hspell.eq_ofBytes.symm, hgood, hbad⟩
  · rw [decode, Event.records, if_pos hlength]
    constructor
    · rintro ⟨⟩
      exact .inl ⟨hlength, rfl, rfl⟩
    · rintro (⟨_, rfl, rfl⟩ | ⟨good, bad, rest, hspell, _⟩)
      · rfl
      · exact absurd hspell.whole.length_mod hlength

theorem decode_eq_ok_iff {s s' : Snapshot} {buffer : List UInt8} {n : Nat} :
    s.decode buffer = .ok n s' ↔
      ∃ events, Spell buffer events ∧ (∀ e ∈ events, ∀ c, ¬ e.Bad c) ∧ n = events.length ∧
        events.foldlM apply s = .ok s' := by
  constructor
  · intro h
    have hwhole := whole_of_decode_ok h
    rw [s.decode_of_whole hwhole] at h
    obtain ⟨hn, hfold⟩ := applyAll_eq_ok_iff.mp h
    exact ⟨_, Event.spell_ofBytes hwhole, not_bad_of_foldlM hfold, hn, hfold⟩
  · rintro ⟨events, hspell, _, hn, hfold⟩
    rw [s.decode_of_whole hspell.whole, ← hspell.eq_ofBytes]
    exact applyAll_eq_ok_iff.mpr ⟨hn, hfold⟩

/-- A buffer that is not made of records changes nothing.  Of one that is, the records are applied
one after another, up to the first bad one; that one changes nothing and is the fault, whatever
comes after it.  The fault of a record does not depend on the snapshot. -/
theorem decode_stops_at_first_bad (s : Snapshot) (buffer : List UInt8) :
    (buffer.length % 8 = 0 ↔ ∃ events, Spell buffer events) ∧
    (∀ cause s', s.decode buffer = .error cause s' ↔
      (buffer.length % 8 ≠ 0 ∧ cause = .misaligned buffer.length ∧ s' = s) ∨
      ∃ good bad rest, Spell buffer (good ++ bad :: rest) ∧ (∀ e ∈ good, ∀ c, ¬ e.Bad c) ∧
        bad.Bad cause ∧ good.foldlM apply s = .ok s') ∧
    (∀ n s', s.decode buffer = .ok n s' ↔
      ∃ events, Spell buffer events ∧ (∀ e ∈ events, ∀ c, ¬ e.Bad c) ∧ n = events.length ∧
        events.foldlM apply s = .ok s') ∧
    ∀ e cause, s.apply e = .error cause ↔ e.Bad cause := by
  refine ⟨?_, fun cause s' => decode_eq_error_iff, fun n s' => decode_eq_ok_iff,
    fun e cause => apply_eq_error_iff⟩
  simp [Event.spell_iff]

/-- Of several faults the data comes first, and the release before it counts. -/
example :
    decode { buttons := .replicate 11 true }
      ((Event.button 0 0).toBytes ++ (Event.button 13 2).toBytes ++ [0, 0, 0, 0, 0, 0, 3, 0]) =
        .error (.invalidButtonData 13 2)
          { buttons := (Vector.replicate 11 true).set 0 false } := by
  cbv

end Snapshot

end Patchbay.Gamepad
