import Patchbay.Input
import Patchbay.Proofs.Gamepad.LastEvent
import Patchbay.Proofs.Gamepad.Polling
import Patchbay.Proofs.Single.Values

/-! # Ranges of controls

Every control keeps to its documented range, whatever a gamepad reports, but one: a stick whose
horizontal axis has reported the lowest value reads as a little less than minus one.  The vertical
axes and all one-sided parts are negated with saturation, and so never are the lowest value. -/

namespace Patchbay.Gamepad

open Single (HasValue Rounds packed ofInt)

/-! ## Scaled axes -/

/-- A quotient of integers is in the unit interval if its magnitude is. -/
theorem quotient_mem_unit {i : ℤ} {n : ℕ} (hi : i.natAbs ≤ n) (hpos : 0 < n) (hn : n < 2 ^ 24) :
    -1.0 ≤ ofInt i / ofInt n ∧ ofInt i / ofInt n ≤ 1.0 ∧ (0 ≤ i → 0.0 ≤ ofInt i / ofInt n) := by
  have hdivisor := Single.hasValue_ofInt (i := n) (by omega) (by omega)
  rw [if_neg (by omega), Int.natAbs_natCast] at hdivisor
  by_cases hzero : i = 0
  · rw [hzero, Single.zero_div_eq_packed hdivisor]
    decide
  · obtain ⟨u, hround, hquotient⟩ :=
      Single.exists_div_eq_packed (Single.hasValue_ofInt hzero (by omega)) hdivisor
    have hone : (i.natAbs : ℚ) / n ≤ 1 :=
      (div_le_one₀ (by exact_mod_cast hpos)).mpr (by exact_mod_cast hi)
    rw [hquotient]
    obtain ⟨hlow, hhigh, hsign⟩ := hround.le_one hone
    refine ⟨hlow, hhigh, fun h => hsign ?_⟩
    rw [if_neg (by omega)]
    rfl

theorem normalizeSigned_minValue : ¬ -1.0 ≤ normalizeSigned Int16.minValue := by
  decide

/-- Of all numbers, only the lowest is scaled to one outside the unit interval. -/
theorem normalizeSigned_mem_unit_iff (v : Int16) :
    -1.0 ≤ normalizeSigned v ∧ normalizeSigned v ≤ 1.0 ↔ v.toInt.natAbs ≤ 32767 := by
  have hlow := v.le_toInt
  have hhigh := v.toInt_lt
  constructor
  · intro h
    have hne : v.toInt ≠ -32768 := by
      intro hv
      obtain rfl : v = Int16.minValue := Int16.toInt_inj.mp hv
      exact normalizeSigned_minValue h.1
    omega
  · intro h
    obtain ⟨hlower, hupper, _⟩ := quotient_mem_unit (n := 32767) h (by decide) (by decide)
    exact ⟨hlower, hupper⟩

theorem normalizeUnsigned_mem_unit (v : UInt16) :
    0.0 ≤ normalizeUnsigned v ∧ normalizeUnsigned v ≤ 1.0 := by
  have hlt := v.toNat_lt
  obtain ⟨_, hupper, hlower⟩ :=
    quotient_mem_unit (i := v.toNat) (n := 65535) (by omega) (by decide) (by decide)
  exact ⟨hlower (by omega), hupper⟩

/-! ## Buttons and the pad -/

theorem level_eq (held : Bool) : level held = 0.0 ∨ level held = 1.0 := by
  cases held
  · exact .inl rfl
  · exact .inr rfl

theorem level_sub_level (a b : Bool) :
    level a - level b = -1.0 ∨ level a - level b = 0.0 ∨ level a - level b = 1.0 := by
  decide +revert

/-! ## Controls -/

namespace Control

/-- The values that a control is documented to have. -/
def InRange : Control → Float32 → Prop
  | button _, x => x = 0.0 ∨ x = 1.0
  | leftTrigger, x | rightTrigger, x => 0.0 ≤ x ∧ x ≤ 1.0
  | bothTriggers, x | stick _ _, x => -1.0 ≤ x ∧ x ≤ 1.0
  | pad .x, x | pad .y, x => x = -1.0 ∨ x = 0.0 ∨ x = 1.0
  | pad _, x => x = 0.0 ∨ x = 1.0

/-- The number that a control scales to the interval from minus one to one. -/
def signed (s : Snapshot) : Control → Option Int16
  | bothTriggers => some s.triggerDifference
  | stick .left c => some (c.ofStick s.leftX s.leftY)
  | stick .right c => some (c.ofStick s.rightX s.rightY)
  | _ => none

variable {s : Snapshot} {c : Control} {v : Int16}

theorem read_of_signed (h : c.signed s = some v) : c.read s = normalizeSigned v := by
  unfold signed at h
  split at h <;> cases h <;> rfl

theorem inRange_iff_of_signed (h : c.signed s = some v) :
    c.InRange (c.read s) ↔ v.toInt.natAbs ≤ 32767 := by
  rw [← normalizeSigned_mem_unit_iff, ← read_of_signed h]
  unfold signed at h
  split at h
  · exact Iff.rfl
  · exact Iff.rfl
  · exact Iff.rfl
  · cases h

/-- A control that scales no signed number is always in its range. -/
theorem inRange_of_not_signed (h : c.signed s = none) : c.InRange (c.read s) := by
  cases c with
  | button b => exact level_eq _
  | leftTrigger => exact normalizeUnsigned_mem_unit _
  | rightTrigger => exact normalizeUnsigned_mem_unit _
  | bothTriggers => exact nomatch h
  | stick st part => cases st <;> exact nomatch h
  | pad part =>
      cases part with
      | x => exact level_sub_level _ _
      | y => exact level_sub_level _ _
      | left => exact level_eq _
      | up => exact level_eq _
      | right => exact level_eq _
      | down => exact level_eq _

end Control

/-! ## The numbers that are scaled -/

theorem toInt_half (v : UInt16) : (v / 2).toInt16.toInt = (v.toNat / 2 : ℕ) := by
  have hlt := v.toNat_lt
  have hhalf : (v / 2).toBitVec.toNat = v.toNat / 2 := UInt16.toNat_div v 2
  change (v / 2).toBitVec.toInt = _
  rw [BitVec.toInt_eq_toNat_of_lt (by omega), hhalf]

/-- Halves of triggers are so small that their difference does not overflow. -/
theorem Snapshot.toInt_triggerDifference (s : Snapshot) :
    s.triggerDifference.toInt = (s.rightTrigger.toNat / 2 : ℕ) - (s.leftTrigger.toNat / 2 : ℕ) := by
  have hright := s.rightTrigger.toNat_lt
  have hleft := s.leftTrigger.toNat_lt
  rw [Snapshot.triggerDifference, Int16.toInt_sub, toInt_half, toInt_half]
  exact Int.bmod_eq_of_le (by omega) (by omega)

theorem toInt_min (x y : Int16) : (min x y).toInt = min x.toInt y.toInt := by
  change (if x ≤ y then x else y).toInt = _
  simp only [Int16.le_iff_toInt_le]
  split <;> omega

theorem toInt_max (x y : Int16) : (max x y).toInt = max x.toInt y.toInt := by
  change (if x ≤ y then y else x).toInt = _
  simp only [Int16.le_iff_toInt_le]
  split <;> omega

/-- Of the parts of a stick only the horizontal position itself can be the lowest number. -/
theorem Component.natAbs_ofStick {x y : Int16} {c : Component} (hy : -32767 ≤ y.toInt) :
    (c.ofStick x y).toInt.natAbs ≤ 32767 ↔ ¬ (c = .x ∧ x = Int16.minValue) := by
  have hlow := x.le_toInt
  have hhigh := x.toInt_lt
  have hhigh' := y.toInt_lt
  have hlowest : x = Int16.minValue ↔ x.toInt = -32768 := Int16.toInt_inj.symm
  have hzero : (0 : Int16).toInt = 0 := rfl
  cases c <;> simp only [ofStick, toInt_opposite, toInt_min, toInt_max, hzero, hlowest] <;>
    simp <;> omega

/-! ## Sessions -/

variable {events : List Event} {s : Snapshot} {c : Control} {v : Int16}

/-- The vertical axes are negated, and the lowest number becomes the highest. -/
theorem Snapshot.Told.le_vertical (h : Told {} events s) :
    -32767 ≤ s.leftY.toInt ∧ -32767 ≤ s.rightY.toInt := by
  have hcell (axis : Cell) (hstart : cell {} axis = 0)
      (htold : ∀ e, axis.told e = min (-e.value.toInt) 32767) : -32767 ≤ s.cell axis := by
    rw [h axis, hstart]
    cases Event.last axis.control events with
    | none =>
        rw [Option.elim_none]
        decide
    | some e =>
        have hhigh := e.value.toInt_lt
        rw [Option.elim_some, htold e]
        omega
  exact ⟨hcell .leftY rfl fun _ => rfl, hcell .rightY rfl fun _ => rfl⟩

/-- A horizontal axis is at the lowest number if it was told so last. -/
theorem Snapshot.Told.horizontal_eq_iff (h : Told {} events s) (axis : Cell)
    (hstart : cell {} axis = 0) (htold : ∀ e, axis.told e = e.value.toInt) :
    s.cell axis = -32768 ↔
      ∃ e, Event.last axis.control events = some e ∧ e.value = Int16.minValue := by
  rw [h axis, hstart]
  cases Event.last axis.control events with
  | none => simp
  | some e =>
      rw [Option.elim_some, htold e]
      simp only [Option.some.injEq, exists_eq_left', ← Int16.toInt_inj]
      rfl

/-- A stick's horizontal position, after an axis that has last reported the lowest number. -/
def Control.Lowest (events : List Event) : Control → Prop
  | stick .left .x => ∃ e, Event.last Cell.leftX.control events = some e ∧ e.value = Int16.minValue
  | stick .right .x =>
      ∃ e, Event.last Cell.rightX.control events = some e ∧ e.value = Int16.minValue
  | _ => False

theorem Control.natAbs_signed_iff (h : Snapshot.Told {} events s) (hv : c.signed s = some v) :
    v.toInt.natAbs ≤ 32767 ↔ ¬ c.Lowest events := by
  obtain ⟨hleftY, hrightY⟩ := h.le_vertical
  have hleftX : s.leftX = Int16.minValue ↔ _ :=
    Int16.toInt_inj.symm.trans (h.horizontal_eq_iff .leftX rfl fun _ => rfl)
  have hrightX : s.rightX = Int16.minValue ↔ _ :=
    Int16.toInt_inj.symm.trans (h.horizontal_eq_iff .rightX rfl fun _ => rfl)
  cases c with
  | bothTriggers =>
      cases hv
      have hright := s.rightTrigger.toNat_lt
      have hleft := s.leftTrigger.toNat_lt
      have hdifference := s.toInt_triggerDifference
      simp only [Lowest, not_false_eq_true, iff_true]
      omega
  | stick st part =>
      cases st with
      | left =>
          cases hv
          rw [Component.natAbs_ofStick hleftY, hleftX]
          cases part <;> simp [Lowest]
      | right =>
          cases hv
          rw [Component.natAbs_ofStick hrightY, hrightX]
          cases part <;> simp [Lowest]
  | _ => exact nomatch hv

/-- In a session without a fault, a controller's signal is in its documented range unless it is the
horizontal position of a stick that has last reported the lowest number.  The number that a signal
scales is within the largest one's distance of zero under the same condition, and the
difference of the triggers does not overflow. -/
theorem Controller.attend_inRange_iff (id : String) (b : Bench) (moves : List Move)
    (hok : (attend { id } b moves).result = .ok ()) {key : String} {signal : Signal}
    (hkey : (Input.controller (attend { id } b moves).controller).find key = .ok signal) :
    let session := attend { id } b moves
    let events := Event.ofBytes session.reads.flatten
    let s := session.controller.snapshot
    let x := (Input.controller session.controller).read signal
    ∃ c : Control, signal = .control c ∧ (c.InRange x ↔ ¬ c.Lowest events) ∧
      (∀ v, c.signed s = some v →
        x = normalizeSigned v ∧ (v.toInt.natAbs ≤ 32767 ↔ ¬ c.Lowest events)) ∧
      s.triggerDifference.toInt =
        (s.rightTrigger.toNat / 2 : ℕ) - (s.leftTrigger.toNat / 2 : ℕ) := by
  intro session events s x
  obtain ⟨c, hc, rfl⟩ : ∃ c, Control.find key = .ok c ∧ Signal.control c = signal := by
    cases hfind : Control.find key with
    | error cause => simp [Input.find, hfind, Except.map] at hkey
    | ok c => exact ⟨c, rfl, by simpa [Input.find, hfind, Except.map] using hkey⟩
  obtain ⟨n, hdecode⟩ := decode_reads hok
  have htold : Snapshot.Told {} events s := by
    have hrun : Snapshot.applyAll {} events = .ok n s :=
      (Snapshot.decode_of_whole {} (Snapshot.whole_of_decode_ok hdecode)).symm.trans hdecode
    obtain ⟨s', hall, htold⟩ := Snapshot.applyAll_told {} (Snapshot.valid_of_applyAll hrun)
    rw [hrun] at hall
    cases hall
    exact htold
  have hsigned {v : Int16} (hv : c.signed s = some v) := Control.natAbs_signed_iff htold hv
  refine ⟨c, rfl, ?_, fun v hv => ⟨Control.read_of_signed hv, hsigned hv⟩,
    s.toInt_triggerDifference⟩
  change c.InRange (c.read s) ↔ _
  cases hv : c.signed s with
  | some v => exact (Control.inRange_iff_of_signed hv).trans (hsigned hv)
  | none =>
      have hnot : ¬ c.Lowest events := by
        cases c with
        | stick st part => cases st <;> exact nomatch hv
        | _ => exact fun hlowest => hlowest
      exact iff_of_true (Control.inRange_of_not_signed hv) hnot

/-- A stick to the far left and up: only the horizontal position is out of its range. -/
theorem Controller.attend_inRange_iff_far_left_and_up :
    let moves : List Move :=
      [.chunk [0, 0, 0, 0, 0, 0x80, 2, 0, 0, 0, 0, 0, 0, 0x80, 2, 1], .poll]
    let session := attend { id := "js0" } {} moves
    let input := Input.controller session.controller
    session.result = .ok () ∧
      ¬ Control.InRange (.stick .left .x) (input.read (.control (.stick .left .x))) ∧
      Control.InRange (.stick .left .up) (input.read (.control (.stick .left .up))) := by
  intro moves session input
  have hdecode : Snapshot.decode {} [0, 0, 0, 0, 0, 0x80, 2, 0, 0, 0, 0, 0, 0, 0x80, 2, 1] =
      .ok 2 { leftX := -32768, leftY := 32767 } := by cbv
  obtain ⟨b', hattend⟩ := attend_chunk_poll (c := { id := "js0" }) (b := {}) hdecode
  have hok : session.result = .ok () := congrArg Session.result hattend
  have hevents : Event.ofBytes session.reads.flatten = [.axis 0 (-32768), .axis 1 (-32768)] :=
    congrArg (fun after : Session => Event.ofBytes after.reads.flatten) hattend
  have hx : input.find "ljoy.x" = .ok (.control (.stick .left .x)) := by decide +kernel
  have hup : input.find "ljoy.up" = .ok (.control (.stick .left .up)) := by decide +kernel
  obtain ⟨c, hc, hrange, _⟩ := attend_inRange_iff "js0" {} moves hok hx
  obtain ⟨c', hc', hrange', _⟩ := attend_inRange_iff "js0" {} moves hok hup
  obtain rfl := Signal.control.inj hc
  obtain rfl := Signal.control.inj hc'
  refine ⟨hok, fun h => hrange.mp h ?_, hrange'.mpr fun h => h⟩
  rw [hevents]
  exact ⟨.axis 0 (-32768), by decide, rfl⟩

/-- A stick to the far left: its horizontal position is less than minus one. -/
theorem Controller.stick_below_minus_one :
    let moves : List Move := [.chunk [0, 0, 0, 0, 0, 0x80, 2, 0], .poll]
    let session := attend { id := "js0" } {} moves
    let input := Input.controller session.controller
    session.result = .ok () ∧ input.find "ljoy.x" = .ok (.control (.stick .left .x)) ∧
      input.read (.control (.stick .left .x)) < -1.0 := by
  intro moves session input
  have hdecode : Snapshot.decode {} [0, 0, 0, 0, 0, 0x80, 2, 0] = .ok 1 { leftX := -32768 } := by
    cbv
  obtain ⟨b', hattend⟩ := attend_chunk_poll (c := { id := "js0" }) (b := {}) hdecode
  have hsnapshot : session.controller.snapshot = { leftX := -32768 } :=
    congrArg (fun after : Session => after.controller.snapshot) hattend
  refine ⟨congrArg Session.result hattend, by decide +kernel, ?_⟩
  change Control.read session.controller.snapshot _ < _
  rw [hsnapshot]
  decide

end Patchbay.Gamepad
