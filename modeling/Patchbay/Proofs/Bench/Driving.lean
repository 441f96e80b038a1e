import Patchbay.Proofs.Bench.Attempt

/-! # Driving lines

Which drives a pin gives its line depends on how it is connected only, not on its last value.  Pins
of different numbers that are set together each drive their own line once. -/

namespace Patchbay

/-! ## Taking a line -/

namespace Bench

theorem boardPin_eq (pin : UInt8) :
    (∃ number, boardPin pin = .ok number) ∧ pin.toNat ≤ 27 ∨
      boardPin pin = .error (.pinOutOfRange pin) ∧ 27 < pin.toNat := by
  have hlength : boardPins.length = 28 := rfl
  unfold boardPin
  cases hp : boardPins[pin.toNat]? with
  | some number =>
      have hlt := (List.getElem?_eq_some_iff.mp hp).1
      exact .inl ⟨⟨number, rfl⟩, by omega⟩
  | none =>
      have hle := List.getElem?_eq_none_iff.mp hp
      exact .inr ⟨rfl, by omega⟩

/-- Why nobody can take a pin now: it is not on the board, or somebody has it. -/
def refusal (b : Bench) (pin : UInt8) : Option DeviceError :=
  if 27 < pin.toNat then some (.pinOutOfRange pin)
  else if (b.line pin).claimed then some (.pinBusy pin)
  else none

theorem free_of_refusal {b : Bench} {pin : UInt8} (h : b.refusal pin = none) :
    (b.line pin).claimed = false := by
  unfold refusal at h
  cases hc : (b.line pin).claimed with
  | false => rfl
  | true =>
      rw [hc, if_pos rfl] at h
      split at h <;> contradiction

/-- The bench on which a line is taken. -/
def taken (b : Bench) (pin : UInt8) : Bench :=
  b.setLine pin { b.line pin with claimed := true }

theorem line_taken (b : Bench) (p q : UInt8) :
    (b.taken p).line q = if p = q then { b.line p with claimed := true } else b.line q :=
  line_setLine ..

theorem claim_eq (b : Bench) (pin : UInt8) :
    claim pin b =
      match b.refusal pin with
      | some cause => .error cause b
      | none => .ok () (b.taken pin) := by
  unfold claim refusal
  rcases boardPin_eq pin with ⟨⟨number, hp⟩, hle⟩ | ⟨hp, hlt⟩
  · rw [hp, if_neg (Nat.not_lt.mpr hle)]
    by_cases hc : (b.line pin).claimed <;> simp [hc, taken]
  · rw [hp, if_pos hlt]

end Bench

namespace OutputPin

/-! ## One pin -/

section

variable (p : OutputPin) (v : Float32) (b : Bench)

/-- A pin as it is connected, whatever it was set to. -/
def bare : OutputPin := { p with value := 0.0 }

theorem line_set (q : UInt8) :
    (p.set v b).2.line q =
      if p.number = q then
        { b.line q with last := some (p.resolve v).2, writes := (b.line q).writes + 1 }
      else b.line q :=
  Bench.line_write b p.number q (p.resolve v).2

theorem last_set : ((p.set v b).2.line p.number).last = some (p.resolve v).2 := by
  rw [line_set, if_pos rfl]

end

theorem attach_eq (mode : OutputMode) (wiring : Wiring) (b : Bench) :
    attach mode wiring b =
      match b.refusal wiring.number with
      | some cause => .error cause b
      | none =>
        .ok (OutputPin.set { wiring, mode } 0.0 (b.taken wiring.number)).1
          (OutputPin.set { wiring, mode } 0.0 (b.taken wiring.number)).2 := by
  have hclaim := Bench.claim_eq b wiring.number
  change EStateM.bind (Bench.claim wiring.number) _ b = _
  cases hr : b.refusal wiring.number with
  | some cause =>
      rw [hr] at hclaim
      simp only [EStateM.bind, hclaim]
  | none =>
      rw [hr] at hclaim
      simp only [EStateM.bind, hclaim]
      rfl

theorem attach_eq_ok {mode : OutputMode} {wiring : Wiring} {b b' : Bench} {p : OutputPin}
    (h : attach mode wiring b = .ok p b') :
    p.bare = { wiring, mode } ∧ (b'.line wiring.number).last = some (p.resolve 0.0).2 := by
  rw [attach_eq] at h
  cases hr : b.refusal wiring.number with
  | some cause =>
      rw [hr] at h
      exact nomatch h
  | none =>
      rw [hr] at h
      simp only [EStateM.Result.ok.injEq] at h
      obtain ⟨rfl, rfl⟩ := h
      exact ⟨rfl, last_set { wiring, mode } 0.0 (b.taken wiring.number)⟩

/-! ## Pins together -/

variable {pins : List OutputPin} {values : List Float32} {b b' : Bench}

theorem map_bare_setAll : (setAll pins values b).1.map bare = pins.map bare := by
  induction pins generalizing values b with
  | nil => rfl
  | cons p pins ih =>
      cases values with
      | nil => rfl
      | cons v values => exact congrArg (p.bare :: ·) ih

/-- Only how the pins are connected matters. -/
theorem setAll_map_bare : (setAll (pins.map bare) values b).2 = (setAll pins values b).2 := by
  induction pins generalizing values b with
  | nil => rfl
  | cons p pins ih =>
      cases values with
      | nil => rfl
      | cons v values => exact ih

theorem map_number_bare : (pins.map bare).map number = pins.map number := by
  rw [List.map_map]
  rfl

theorem map_number_setAll : (setAll pins values b).1.map number = pins.map number := by
  rw [← map_number_bare, map_bare_setAll, map_number_bare]

theorem line_setAll_of_not_mem {q : UInt8} (hq : q ∉ pins.map number) :
    (setAll pins values b).2.line q = b.line q := by
  induction pins generalizing values b with
  | nil => rfl
  | cons p pins ih =>
      rw [List.map_cons, List.mem_cons, not_or] at hq
      cases values with
      | nil => rfl
      | cons v values =>
          change (setAll pins values (p.set v b).2).2.line q = _
          rw [ih hq.2, line_set, if_neg (Ne.symm hq.1)]

theorem line_setAll_of_mem (hnodup : (pins.map number).Nodup) {p : OutputPin} {v : Float32}
    (hp : (p, v) ∈ pins.zip values) :
    (setAll pins values b).2.line p.number =
      { b.line p.number with
        last := some (p.resolve v).2
        writes := (b.line p.number).writes + 1 } := by
  induction pins generalizing values b with
  | nil => simp at hp
  | cons first pins ih =>
      rw [List.map_cons, List.nodup_cons] at hnodup
      cases values with
      | nil => simp at hp
      | cons w values =>
          change (setAll pins values (first.set w b).2).2.line p.number = _
          rw [List.zip_cons_cons, List.mem_cons] at hp
          rcases hp with heq | hp
          · cases heq
            rw [line_setAll_of_not_mem hnodup.1, line_set, if_pos rfl]
          · have hne : first.number ≠ p.number := by
              intro heq
              exact hnodup.1 (heq ▸ List.mem_map_of_mem (List.of_mem_zip hp).1)
            rw [ih hnodup.2 hp, line_set, if_neg hne]

theorem exists_mem_zip (hlength : pins.length ≤ values.length) {p : OutputPin} (hp : p ∈ pins) :
    ∃ v, (p, v) ∈ pins.zip values := by
  rw [← List.map_fst_zip hlength] at hp
  obtain ⟨⟨p, v⟩, hmem, rfl⟩ := List.mem_map.mp hp
  exact ⟨v, hmem⟩

/-- Each pin that has a value drives its line once. -/
theorem line_setAll_eq_write (hnodup : (pins.map number).Nodup) {p : OutputPin} {v : Float32}
    (hp : (p, v) ∈ pins.zip values) :
    (setAll pins values b).2.line p.number =
      (b.write p.number (p.resolve v).2).line p.number := by
  rw [line_setAll_of_mem hnodup hp, Bench.line_write, if_pos rfl]

theorem attachAll_eq_ok {mode : OutputMode} {wirings : List Wiring}
    (h : attachAll mode wirings b = .ok pins b') :
    pins.map bare = wirings.map (fun wiring => { wiring, mode }) ∧
      ∀ p ∈ pins, (b'.line p.number).last = some (p.resolve 0.0).2 := by
  induction wirings generalizing b pins with
  | nil =>
      cases h
      exact ⟨rfl, by simp⟩
  | cons wiring rest ih =>
      rw [attachAll] at h
      cases hfirst : attach mode wiring b with
      | error cause b₁ =>
          rw [hfirst] at h
          cases h
      | ok p b₁ =>
          simp only [hfirst] at h
          cases hrest : attachAll mode rest b₁ with
          | error cause b₂ =>
              rw [hrest] at h
              cases h
          | ok others b₂ =>
              rw [hrest] at h
              cases h
              obtain ⟨hbare, hlast⟩ := attach_eq_ok hfirst
              obtain ⟨hbares, hlasts⟩ := ih hrest
              refine ⟨by rw [List.map_cons, List.map_cons, hbare, hbares], ?_⟩
              intro q hq
              rcases List.mem_cons.mp hq with rfl | hq
              · have hnumber : q.number = wiring.number :=
                  congrArg number hbare
                -- The pins after this one were still free, and this one was not.
                have htaken := attach_attempt mode wiring b
                have hothers := attachAll_attempt mode rest b₁
                rw [hfirst] at htaken
                rw [hrest] at hothers
                cases htaken with
                | ok _ htaken =>
                    cases hothers with
                    | ok _ hothers =>
                        have hmine := htaken.taken wiring.number (List.mem_singleton_self _)
                        have hkept := hothers.others wiring.number fun hm => hothers.free _ hm hmine
                        rw [hnumber, hkept, hlast]
              · exact hlasts q hq

end OutputPin

end Patchbay
