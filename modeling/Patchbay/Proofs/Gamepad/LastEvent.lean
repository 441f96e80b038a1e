import Patchbay.Gamepad.Snapshot

/-! # The last event counts

After any events, what a snapshot shows of a control is what the last event of that control says,
however the events of other controls come in between. -/

namespace Patchbay.Gamepad

/-! ## Controls -/

/-- The number of a button in its events. -/
def Button.number : Button → UInt8
  | cross => 0
  | circle => 1
  | triangle => 2
  | square => 3
  | leftBumper => 4
  | rightBumper => 5
  | share => 8
  | options => 9
  | playStation => 10
  | leftStick => 11
  | rightStick => 12

/-- The number of an axis in its events. -/
def Axis.number : Axis → UInt8
  | leftX => 0
  | leftY => 1
  | leftTrigger => 2
  | rightX => 3
  | rightY => 4
  | rightTrigger => 5
  | padX => 6
  | padY => 7

theorem Button.number_inj {a b : Button} : a.number = b.number ↔ a = b := by
  cases a <;> cases b <;> decide

theorem Button.ofId_number (b : Button) : ofId b.number = .ok (some b) := by
  cases b <;> rfl

theorem Axis.ofId_number (a : Axis) : ofId a.number = .ok a := by
  cases a <;> rfl

theorem Button.exists_number {id : UInt8} (h : id ≤ 12) :
    (id = 6 ∨ id = 7) ∨ ∃ b : Button, id = b.number := by
  have hid : id = 0 ∨ id = 1 ∨ id = 2 ∨ id = 3 ∨ id = 4 ∨ id = 5 ∨ id = 6 ∨ id = 7 ∨ id = 8 ∨
      id = 9 ∨ id = 10 ∨ id = 11 ∨ id = 12 := by grind
  rcases hid with rfl | rfl | rfl | rfl | rfl | rfl | rfl | rfl | rfl | rfl | rfl | rfl | rfl
  · exact .inr ⟨cross, rfl⟩
  · exact .inr ⟨circle, rfl⟩
  · exact .inr ⟨triangle, rfl⟩
  · exact .inr ⟨square, rfl⟩
  · exact .inr ⟨leftBumper, rfl⟩
  · exact .inr ⟨rightBumper, rfl⟩
  · exact .inl (.inl rfl)
  · exact .inl (.inr rfl)
  · exact .inr ⟨share, rfl⟩
  · exact .inr ⟨options, rfl⟩
  · exact .inr ⟨playStation, rfl⟩
  · exact .inr ⟨leftStick, rfl⟩
  · exact .inr ⟨rightStick, rfl⟩

theorem Axis.exists_number {id : UInt8} (h : id ≤ 7) : ∃ a : Axis, id = a.number := by
  have hid : id = 0 ∨ id = 1 ∨ id = 2 ∨ id = 3 ∨ id = 4 ∨ id = 5 ∨ id = 6 ∨ id = 7 := by grind
  rcases hid with rfl | rfl | rfl | rfl | rfl | rfl | rfl | rfl
  · exact ⟨leftX, rfl⟩
  · exact ⟨leftY, rfl⟩
  · exact ⟨leftTrigger, rfl⟩
  · exact ⟨rightX, rfl⟩
  · exact ⟨rightY, rfl⟩
  · exact ⟨rightTrigger, rfl⟩
  · exact ⟨padX, rfl⟩
  · exact ⟨padY, rfl⟩

theorem Button.le_of_ofId {id : UInt8} {b : Option Button} (h : ofId id = .ok b) : id ≤ 12 := by
  unfold ofId at h
  split at h <;> first | decide | cases h

theorem Axis.le_of_ofId {id : UInt8} {a : Axis} (h : ofId id = .ok a) : id ≤ 7 := by
  unfold ofId at h
  split at h <;> first | decide | cases h

namespace Event

/-- What an event is about: the kind of control, without the mark, and its number. -/
def control (e : Event) : UInt8 × UInt8 := (unmarked e.kind, e.id)

/-- An event of a known control; a button is pressed or released. -/
def Valid (e : Event) : Prop :=
  unmarked e.kind = 1 ∧ e.id ≤ 12 ∧ (e.data = 0 ∨ e.data = 1) ∨ unmarked e.kind = 2 ∧ e.id ≤ 7

instance : DecidablePred Valid := fun e =>
  inferInstanceAs (Decidable (unmarked e.kind = 1 ∧ e.id ≤ 12 ∧ (e.data = 0 ∨ e.data = 1) ∨
    unmarked e.kind = 2 ∧ e.id ≤ 7))

/-- The last event of a control. -/
def last (control : UInt8 × UInt8) (events : List Event) : Option Event :=
  (events.filter (·.control = control)).getLast?

variable {α : Type} (control : UInt8 × UInt8) (e : Event) (events : List Event)

theorem last_singleton : last control [e] = if e.control = control then some e else none := by
  by_cases h : e.control = control <;> simp [last, h]

theorem last_append (more : List Event) :
    last control (events ++ more) = (last control more).or (last control events) := by
  rw [last, List.filter_append, List.getLast?_append]
  rfl

/-- A later event of a control makes an earlier one count for nothing. -/
theorem elim_last_cons (start : α) (tell : Event → α) :
    (last control (e :: events)).elim start tell =
      (last control events).elim ((last control [e]).elim start tell) tell := by
  rw [← List.singleton_append, last_append]
  cases last control events <;> rfl

/-- An event of another control may be left out. -/
theorem last_remove {before after : List Event} (h : e.control ≠ control) :
    last control (before ++ e :: after) = last control (before ++ after) := by
  simp [last, h]

/-- Events of different controls may change places. -/
theorem last_swap {e f : Event} {before after : List Event} (h : e.control ≠ f.control) :
    last control (before ++ f :: e :: after) = last control (before ++ e :: f :: after) := by
  by_cases he : e.control = control
  · have hf : f.control ≠ control := he ▸ h.symm
    simp [last, hf]
  · simp [last, he]

end Event

/-! ## What a snapshot shows -/

/-- The numbers that a snapshot consists of; a button or a direction is zero or one. -/
inductive Cell
  | pressed (b : Button)
  | leftX
  | leftY
  | leftTrigger
  | rightX
  | rightY
  | rightTrigger
  | padUp
  | padLeft
  | padDown
  | padRight

namespace Cell

/-- The control that a number comes from. -/
def control : Cell → UInt8 × UInt8
  | pressed b => (1, b.number)
  | leftX => (2, 0)
  | leftY => (2, 1)
  | leftTrigger => (2, 2)
  | rightX => (2, 3)
  | rightY => (2, 4)
  | rightTrigger => (2, 5)
  | padLeft | padRight => (2, 6)
  | padUp | padDown => (2, 7)

/-- What an event of the control says that the number is. -/
def told : Cell → Event → Int
  | pressed _, e => if e.data = 1 then 1 else 0
  | leftX, e | rightX, e => e.value.toInt
  | leftY, e | rightY, e => min (-e.value.toInt) 32767
  | leftTrigger, e | rightTrigger, e => (e.value.toInt + 32767) % 65536
  | padLeft, e | padUp, e => if e.value.toInt < 0 then 1 else 0
  | padRight, e | padDown, e => if 0 < e.value.toInt then 1 else 0

/-- No number comes from the triggers' buttons. -/
theorem control_ne_trigger (c : Cell) {wire : UInt8 × UInt8}
    (h : wire = (1, 6) ∨ wire = (1, 7)) : wire ≠ c.control := by
  rintro rfl
  cases c with
  | pressed b => cases b <;> simp [control, Button.number] at h
  | _ => simp [control] at h

end Cell

theorem toInt_opposite (v : Int16) : (opposite v).toInt = min (-v.toInt) 32767 := by
  have hlow := v.le_toInt
  have hhigh := v.toInt_lt
  unfold opposite
  split
  next h => subst h; rfl
  next h =>
    have hne : v.toInt ≠ -32768 := fun hv => h (Int16.toInt_inj.mp hv)
    rw [Int16.toInt_neg, Int.bmod_eq_of_le] <;> omega

theorem toNat_unsigned (v : Int16) : ((unsigned v).toNat : Int) = (v.toInt + 32767) % 65536 := by
  have hv : v.toInt = (v.toUInt16.toNat : Int).bmod (65536 : Nat) :=
    v.toBitVec.toInt_eq_toNat_bmod
  have hraw : (v.toUInt16.toNat : Int) = v.toInt % (65536 : Nat) := by
    have hlt := v.toUInt16.toNat_lt
    rw [hv, Int.bmod_emod]
    omega
  rw [unsigned, UInt16.toNat_add, Int.natCast_emod, Int.natCast_add, hraw]
  simp

theorem Button.exists_index (i : Fin 11) : ∃ b ∈ all, b.index = i := by
  decide +revert

namespace Snapshot

/-- A number of a snapshot. -/
def cell (s : Snapshot) : Cell → Int
  | .pressed b => (s.pressed b).toNat
  | .leftX => s.leftX.toInt
  | .leftY => s.leftY.toInt
  | .leftTrigger => s.leftTrigger.toNat
  | .rightX => s.rightX.toInt
  | .rightY => s.rightY.toInt
  | .rightTrigger => s.rightTrigger.toNat
  | .padUp => s.pad.up.toNat
  | .padLeft => s.pad.left.toNat
  | .padDown => s.pad.down.toNat
  | .padRight => s.pad.right.toNat

theorem buttons_eq_of_pressed {s s' : Snapshot} (h : ∀ b, s.pressed b = s'.pressed b) :
    s.buttons = s'.buttons := by
  ext i hi
  obtain ⟨b, _, hb⟩ := Button.exists_index ⟨i, hi⟩
  simpa [pressed, hb] using h b

/-- A snapshot is no more than its numbers. -/
theorem ext_cell {s s' : Snapshot} (h : ∀ c, s.cell c = s'.cell c) : s = s' := by
  have hbit {a b : Bool} (hab : (a.toNat : Int) = b.toNat) : a = b :=
    by cases a <;> cases b <;> simp_all
  have hword {a b : UInt16} (hab : (a.toNat : Int) = b.toNat) : a = b :=
    UInt16.toNat_inj.mp (Int.ofNat_inj.mp hab)
  have hpad : s.pad = s'.pad := by
    rw [Pad.mk.injEq]
    exact ⟨hbit (h .padUp), hbit (h .padLeft), hbit (h .padDown), hbit (h .padRight)⟩
  rw [Snapshot.mk.injEq]
  exact ⟨buttons_eq_of_pressed fun b => hbit (h (.pressed b)), hword (h .leftTrigger),
    hword (h .rightTrigger), Int16.toInt_inj.mp (h .leftX), Int16.toInt_inj.mp (h .leftY),
    Int16.toInt_inj.mp (h .rightX), Int16.toInt_inj.mp (h .rightY), hpad⟩

/-! ## One event -/

theorem apply_button (s : Snapshot) {e : Event} {b : Option Button} (hkind : unmarked e.kind = 1)
    (hdata : e.data = 0 ∨ e.data = 1) (hid : Button.ofId e.id = .ok b) :
    s.apply e = .ok (b.elim s (s.setPressed · (e.data = 1))) := by
  have hknown : ¬ (e.data ≠ 0 ∧ e.data ≠ 1) := fun h => hdata.elim h.1 h.2
  simp only [apply, Event.type, EventType.ofRaw, hkind, if_true, hknown, if_false, hid, bind,
    Except.bind, pure, Except.pure]
  cases b <;> rfl

theorem apply_axis (s : Snapshot) {e : Event} {a : Axis} (hkind : unmarked e.kind = 2)
    (hid : Axis.ofId e.id = .ok a) : s.apply e = .ok (s.setAxis a e.value) := by
  simp only [apply, Event.type, EventType.ofRaw, hkind, hid, bind, Except.bind]
  rfl

/-- Where events of its control tell of a number, it is what the last of them says; all other
numbers are as before. -/
def Told (s : Snapshot) (events : List Event) (s' : Snapshot) : Prop :=
  ∀ c : Cell, s'.cell c = (Event.last c.control events).elim (s.cell c) c.told

theorem told_nil (s : Snapshot) : s.Told [] s := fun _ => rfl

theorem Told.cons {s s₁ s' : Snapshot} {e : Event} {events : List Event} (h : s.Told [e] s₁)
    (h' : s₁.Told events s') : s.Told (e :: events) s' := by
  intro c
  rw [Event.elim_last_cons, ← h c]
  exact h' c

/-- What is told of each control determines the snapshot. -/
theorem Told.unique {s s₁ s₂ : Snapshot} {events more : List Event} (h₁ : s.Told events s₁)
    (h₂ : s.Told more s₂)
    (hlast : ∀ c : Cell, Event.last c.control more = Event.last c.control events) : s₂ = s₁ :=
  ext_cell fun c => by rw [h₂ c, h₁ c, hlast c]

theorem told_setPressed (s : Snapshot) {e : Event} {b : Button} (hc : e.control = (1, b.number)) :
    s.Told [e] (s.setPressed b (e.data = 1)) := by
  intro c
  rw [Event.last_singleton, hc]
  cases c with
  | pressed b' =>
      by_cases hb : b = b'
      · subst hb
        by_cases hd : e.data = 1 <;> simp [cell, Cell.control, Cell.told, hd]
      · simp [cell, Cell.control, Button.number_inj, hb]
  | _ => rfl

theorem buttons_setAxis (s : Snapshot) (a : Axis) (v : Int16) :
    (s.setAxis a v).buttons = s.buttons := by
  unfold setAxis
  split <;> rfl

theorem told_setAxis (s : Snapshot) {e : Event} {a : Axis} (hc : e.control = (2, a.number)) :
    s.Told [e] (s.setAxis a e.value) := by
  have hbit (p : Prop) [Decidable p] : ((decide p).toNat : Int) = if p then 1 else 0 := by
    by_cases hp : p <;> simp [hp]
  intro c
  rw [Event.last_singleton, hc]
  cases c with
  | pressed b => simp [cell, Cell.control, pressed, buttons_setAxis]
  | leftTrigger | rightTrigger =>
      cases a <;> rw [setAxis] <;>
        simp only [cell, Cell.control, Axis.number, toNat_unsigned] <;> rfl
  | _ =>
      cases a <;> rw [setAxis] <;>
        simp [cell, Cell.control, Cell.told, Axis.number, toInt_opposite, hbit,
          Int16.lt_iff_toInt_lt]

theorem told_trigger (s : Snapshot) {e : Event} (hc : e.control = (1, 6) ∨ e.control = (1, 7)) :
    s.Told [e] s := by
  intro c
  rw [Event.last_singleton, if_neg (c.control_ne_trigger hc)]
  rfl

theorem apply_told (s : Snapshot) {e : Event} (h : e.Valid) :
    ∃ s', s.apply e = .ok s' ∧ s.Told [e] s' := by
  rcases h with ⟨hkind, hid, hdata⟩ | ⟨hkind, hid⟩
  · rcases Button.exists_number hid with htrigger | ⟨b, hid⟩
    · refine ⟨s, s.apply_button hkind hdata (b := none) ?_, s.told_trigger ?_⟩
      · rcases htrigger with hid | hid <;> rw [hid] <;> rfl
      · simpa [Event.control, hkind] using htrigger
    · refine ⟨_, s.apply_button hkind hdata (b := some b) (by rw [hid, b.ofId_number]), ?_⟩
      exact s.told_setPressed (by rw [Event.control, hkind, hid])
  · obtain ⟨a, hid⟩ := Axis.exists_number hid
    refine ⟨_, s.apply_axis hkind (by rw [hid, a.ofId_number]), ?_⟩
    exact s.told_setAxis (by rw [Event.control, hkind, hid])

/-- Only valid events can be applied. -/
theorem valid_of_apply {s s' : Snapshot} {e : Event} (h : s.apply e = .ok s') : e.Valid := by
  simp only [apply, Event.type, EventType.ofRaw, bind, Except.bind] at h
  by_cases hbutton : unmarked e.kind = 1
  · rw [if_pos hbutton] at h
    by_cases hdata : e.data ≠ 0 ∧ e.data ≠ 1
    · simp [hdata] at h
    · cases hid : Button.ofId e.id with
      | error cause => simp [hdata, hid] at h
      | ok b =>
          refine .inl ⟨hbutton, Button.le_of_ofId hid, Decidable.byContradiction fun hne => ?_⟩
          exact hdata ⟨fun hzero => hne (.inl hzero), fun hone => hne (.inr hone)⟩
  · rw [if_neg hbutton] at h
    by_cases haxis : unmarked e.kind = 2
    · cases hid : Axis.ofId e.id with
      | error cause => simp [haxis, hid] at h
      | ok a => exact .inr ⟨haxis, Axis.le_of_ofId hid⟩
    · simp [haxis] at h

/-! ## Many events -/

theorem valid_of_applyAll {s s' : Snapshot} {events : List Event} {n : Nat}
    (h : s.applyAll events = .ok n s') : ∀ e ∈ events, e.Valid := by
  induction events generalizing s n s' with
  | nil => simp
  | cons e rest ih =>
      rw [applyAll] at h
      cases hone : s.apply e with
      | error cause =>
          rw [hone] at h
          exact nomatch h
      | ok next =>
          simp only [hone] at h
          cases hrest : next.applyAll rest with
          | error cause s₁ =>
              rw [hrest] at h
              exact nomatch h
          | ok m last =>
              intro f hf
              rcases List.mem_cons.mp hf with rfl | hf
              · exact valid_of_apply hone
              · exact ih hrest f hf

theorem applyAll_told (s : Snapshot) {events : List Event} (h : ∀ e ∈ events, e.Valid) :
    ∃ s', s.applyAll events = .ok events.length s' ∧ s.Told events s' := by
  induction events generalizing s with
  | nil => exact ⟨s, rfl, s.told_nil⟩
  | cons e rest ih =>
      obtain ⟨s₁, hone, htold⟩ := s.apply_told (h e (List.mem_cons_self ..))
      obtain ⟨s', hrest, hmore⟩ := ih s₁ fun f hf => h f (List.mem_cons_of_mem _ hf)
      refine ⟨s', ?_, htold.cons hmore⟩
      simp only [applyAll, hone, hrest, List.length_cons]

/-- Events that leave the last event of each control the same leave the same snapshot. -/
theorem applyAll_congr (s : Snapshot) {events more : List Event} {s' : Snapshot}
    (hmore : ∀ e ∈ more, e.Valid) (htold : s.Told events s')
    (hlast : ∀ c : Cell, Event.last c.control more = Event.last c.control events) :
    s.applyAll more = .ok more.length s' := by
  obtain ⟨s₂, hrun, htold₂⟩ := s.applyAll_told hmore
  rw [hrun, htold.unique htold₂ hlast]

/-- Of two numbers of one control, one is zero if every event says so of either of them. -/
theorem Told.eq_zero_or {s s' : Snapshot} {events : List Event} (h : s.Told events s') {c d : Cell}
    (hcontrol : d.control = c.control) (hstart : s.cell c = 0)
    (htold : ∀ e, c.told e = 0 ∨ d.told e = 0) : s'.cell c = 0 ∨ s'.cell d = 0 := by
  rw [h c, h d, hcontrol]
  cases Event.last c.control events with
  | none => exact .inl hstart
  | some e => exact htold e

/-- No value of an axis has two signs. -/
theorem Told.pad_exclusive {events : List Event} {s' : Snapshot} (h : Told {} events s') :
    ¬ (s'.pad.left ∧ s'.pad.right) ∧ ¬ (s'.pad.up ∧ s'.pad.down) := by
  have hsign (v : Int) :
      (if v < 0 then 1 else 0) = (0 : Int) ∨ (if 0 < v then 1 else 0) = (0 : Int) := by
    grind
  have hx := h.eq_zero_or (c := .padLeft) (d := .padRight) rfl rfl fun e => hsign e.value.toInt
  have hy := h.eq_zero_or (c := .padUp) (d := .padDown) rfl rfl fun e => hsign e.value.toInt
  simp only [cell] at hx hy
  constructor
  · rintro ⟨hl, hr⟩
    simp [hl, hr] at hx
  · rintro ⟨hu, hd⟩
    simp [hu, hd] at hy

/-- Valid events in any order are all applied, and each number of the snapshot is what the last
event of its control says; without one it is as before.  So the triggers' buttons, six and seven,
change nothing, neighbours of different controls may change places, and from a fresh snapshot no
two opposite directions come to be held. -/
theorem applyAll_shows_last (s : Snapshot) (events : List Event) (hvalid : ∀ e ∈ events, e.Valid) :
    ∃ s', s.applyAll events = .ok events.length s' ∧
      (∀ c : Cell, s'.cell c = (Event.last c.control events).elim (s.cell c) c.told) ∧
      (∀ before e after, events = before ++ e :: after →
        e.control = (1, 6) ∨ e.control = (1, 7) →
        s.applyAll (before ++ after) = .ok (before ++ after).length s') ∧
      (∀ before e f after, events = before ++ e :: f :: after → e.control ≠ f.control →
        s.applyAll (before ++ f :: e :: after) = .ok events.length s') ∧
      (s = {} → ¬ (s'.pad.left ∧ s'.pad.right) ∧ ¬ (s'.pad.up ∧ s'.pad.down)) := by
  obtain ⟨s', hrun, htold⟩ := s.applyAll_told hvalid
  refine ⟨s', hrun, htold, ?_, ?_, fun h => (h ▸ htold).pad_exclusive⟩
  · rintro before e after rfl htrigger
    have hsub : (before ++ after).Sublist (before ++ e :: after) :=
      (List.sublist_cons_self ..).append_left _
    refine s.applyAll_congr (fun f hf => hvalid f (hsub.subset hf)) htold fun c => ?_
    exact (Event.last_remove _ _ (Cell.control_ne_trigger c htrigger)).symm
  · rintro before e f after rfl hne
    have hperm : (before ++ f :: e :: after).Perm (before ++ e :: f :: after) :=
      (List.Perm.swap ..).append_left _
    rw [← hperm.length_eq]
    refine s.applyAll_congr (fun g hg => hvalid g (hperm.subset hg)) htold fun c => ?_
    exact Event.last_swap _ hne

/-- A marked press, both ends of an axis, and a button that is not kept track of. -/
theorem applyAll_shows_last_pad_and_stick :
    let events : List Event := [⟨0, 1, 0x81, 2⟩, .axis 6 (-1), .axis 1 (-32768), .axis 2 0,
      .button 6 1, .axis 6 32767]
    (∀ e ∈ events, e.Valid) ∧ ∃ s', applyAll {} events = .ok 6 s' ∧
      s'.cell (.pressed .triangle) = 1 ∧ s'.cell .leftY = 32767 ∧
      s'.cell .leftTrigger = 32767 ∧ s'.cell .padLeft = 0 ∧ s'.cell .padRight = 1 := by
  intro events
  have hvalid : ∀ e ∈ events, e.Valid := by decide
  obtain ⟨s', hrun, htold, _⟩ := applyAll_shows_last {} events hvalid
  exact ⟨hvalid, s', hrun, (htold _).trans (by decide), (htold _).trans (by decide),
    (htold _).trans (by decide), (htold _).trans (by decide), (htold _).trans (by decide)⟩

end Snapshot

end Patchbay.Gamepad
