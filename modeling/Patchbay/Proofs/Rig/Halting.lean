import Patchbay.Proofs.Bench.Lines
import Patchbay.Proofs.Gamepad.LastEvent
import Patchbay.Proofs.Rig.Ticking
import Patchbay.Scheduler

/-! # Halting at a fault

A tick that meets an input with a fault ends there.  The inputs up to that one have been polled, and
nothing else has happened: no connection has run and no output has moved. -/

namespace Patchbay

open Gamepad (Controller Snapshot)
open Registry (tryList)

/-! ## Faults of an input -/

/-- The fault that a poll of an input meets, if it meets one. -/
def Input.fault (i : Input) (b : Bench) : Option RigError :=
  match (i.poll b).1 with
  | .ok () => none
  | .error cause => some cause

/-- Which bytes can be decoded does not depend on the snapshot. -/
theorem Gamepad.Snapshot.exists_decode {s s' : Snapshot} {bytes : List UInt8} {n : Nat}
    (h : s.decode bytes = .ok n s') (t : Snapshot) : ∃ n t', t.decode bytes = .ok n t' := by
  have hwhole := Snapshot.whole_of_decode_ok h
  rw [s.decode_of_whole hwhole] at h
  obtain ⟨t', happly, -⟩ := t.applyAll_told (Snapshot.valid_of_applyAll h)
  exact ⟨_, t', (t.decode_of_whole hwhole).trans happly⟩

namespace Input

variable {i i' : Input} {b b' : Bench} {cause : RigError}

theorem fault_of_ok (h : i.poll b = (.ok (), i', b')) : i.fault b = none := by
  rw [fault, h]

theorem fault_of_error (h : i.poll b = (.error cause, i', b')) : i.fault b = some cause := by
  rw [fault, h]

theorem fault_of_decode {c : Controller} {n : Nat} {s : Snapshot}
    (h : c.snapshot.decode (b.queue c.id) = .ok n s) : (controller c).fault b = none := by
  obtain ⟨b', hpoll, -⟩ := poll_controller h
  exact fault_of_ok hpoll

theorem fault_of_decode_error {c : Controller} {first : Gamepad.ProtocolError} {s : Snapshot}
    (h : c.snapshot.decode (b.queue c.id) = .error first s) :
    (controller c).fault b = some (.protocol first) := by
  simp only [fault, poll, Controller.poll_of_error h]
  rfl

/-- Only what waits for a controller matters. -/
theorem fault_congr {c : Controller} (h : b'.queue c.id = b.queue c.id) :
    (controller c).fault b' = (controller c).fault b := by
  cases hdecode : c.snapshot.decode (b.queue c.id) with
  | ok n s => rw [fault_of_decode hdecode, fault_of_decode (h ▸ hdecode)]
  | error first s => rw [fault_of_decode_error hdecode, fault_of_decode_error (h ▸ hdecode)]

/-- A poll without a fault neither makes nor mends a fault of another input: under its own id no
bad bytes were waiting, and no bytes wait now. -/
theorem fault_poll (h : i.poll b = (.ok (), i', b')) (other : Input) :
    other.fault b' = other.fault b := by
  cases other with
  | button o => rfl
  | controller d =>
      cases i with
      | button o =>
          obtain ⟨o', b₁, hpoll, hout⟩ := poll_button o b
          cases hpoll.symm.trans h
          exact fault_congr (congrFun (Bench.queue_of_outside hout) d.id)
      | controller c =>
          obtain ⟨n, s, hdecode⟩ := decode_of_poll_controller h
          obtain ⟨b₁, hpoll, hqueue, -⟩ := poll_controller hdecode
          cases hpoll.symm.trans h
          by_cases hid : c.id = d.id
          · have hread : b'.queue d.id = [] := by rw [hqueue, readOut, if_pos hid]
            obtain ⟨m, t, hsound⟩ := Snapshot.exists_decode (hid ▸ hdecode) d.snapshot
            have hnone : d.snapshot.decode (b'.queue d.id) = .ok 0 d.snapshot := by
              rw [hread]
              rfl
            rw [fault_of_decode hsound, fault_of_decode hnone]
          · exact fault_congr (by rw [hqueue, readOut, if_neg hid])

/-- A poll drives no line and takes no time. -/
theorem poll_keeps (i : Input) (b : Bench) :
    (i.poll b).2.2.line = b.line ∧ (i.poll b).2.2.clock = b.clock := by
  cases i with
  | button o =>
      unfold poll Button.poll
      dsimp only
      split <;> exact ⟨rfl, rfl⟩
  | controller c =>
      unfold poll Controller.poll Bench.drain
      dsimp only
      split
      · exact ⟨rfl, rfl⟩
      · cases c.snapshot.decode (b.queue c.id) <;> exact ⟨rfl, rfl⟩

end Input

/-! ## The first fault -/

/-- The inputs are polled one after another, up to and with the first that has a fault: what they
are before and after it, and the bench. -/
inductive Halts :
    List (String × Input) → Bench → RigError → List (String × Input) → Bench → Prop
  | fault {name i i' rest b b' cause} : i.poll b = (.error cause, i', b') →
      Halts ((name, i) :: rest) b cause ((name, i') :: rest) b'
  | later {name i i' rest rest' b b₁ b' cause} : i.poll b = (.ok (), i', b₁) →
      Halts rest b₁ cause rest' b' → Halts ((name, i) :: rest) b cause ((name, i') :: rest') b'

namespace Halts

variable {entries after : List (String × Input)} {b b' : Bench} {cause : RigError}

theorem execution (h : Halts entries b cause after b') :
    tryList Input.poll entries b = (.error cause, after, b') := by
  induction h with
  | fault hpoll => rw [tryList, hpoll]
  | later hpoll _ ih => simp only [tryList, hpoll, ih]

theorem of_tryList (h : tryList Input.poll entries b = (.error cause, after, b')) :
    Halts entries b cause after b' := by
  induction entries generalizing b after with
  | nil => exact nomatch h
  | cons entry rest ih =>
      obtain ⟨name, i⟩ := entry
      rw [tryList] at h
      cases hpoll : i.poll b with
      | mk result polled =>
          obtain ⟨i', b₁⟩ := polled
          rw [hpoll] at h
          cases result with
          | error first =>
              cases h
              exact .fault hpoll
          | ok _ =>
              cases hrest : tryList Input.poll rest b₁ with
              | mk result' polled' =>
                  obtain ⟨rest', b₂⟩ := polled'
                  simp only [hrest] at h
                  cases h
                  exact .later hpoll (ih hrest)

theorem iff_tryList :
    Halts entries b cause after b' ↔ tryList Input.poll entries b = (.error cause, after, b') :=
  ⟨execution, of_tryList⟩

/-- The fault is the first among those that are there before the polls. -/
theorem first_fault (h : Halts entries b cause after b') :
    (entries.map Prod.snd).findSome? (·.fault b) = some cause := by
  induction h with
  | fault hpoll => rw [List.map_cons, List.findSome?_cons, Input.fault_of_error hpoll]
  | later hpoll _ ih =>
      rw [List.map_cons, List.findSome?_cons, Input.fault_of_ok hpoll]
      simpa only [Input.fault_poll hpoll] using ih

theorem exists_of_fault (h : ∃ entry ∈ entries, (entry.2.fault b).isSome) :
    ∃ cause after b', Halts entries b cause after b' := by
  induction entries generalizing b with
  | nil => exact absurd h (by simp)
  | cons entry rest ih =>
      obtain ⟨name, i⟩ := entry
      cases hpoll : i.poll b with
      | mk result polled =>
          obtain ⟨i', b₁⟩ := polled
          cases result with
          | error cause => exact ⟨cause, _, _, .fault hpoll⟩
          | ok _ =>
              have hlater : ∃ entry ∈ rest, (entry.2.fault b₁).isSome := by
                obtain ⟨entry, hm, hfault⟩ := h
                rcases List.mem_cons.mp hm with rfl | hm
                · rw [Input.fault_of_ok hpoll] at hfault
                  contradiction
                · exact ⟨entry, hm, by rwa [Input.fault_poll hpoll]⟩
              obtain ⟨cause, after, b', hrest⟩ := ih hlater
              exact ⟨cause, _, b', .later hpoll hrest⟩

/-- No line is driven, and no time passes. -/
theorem keeps (h : Halts entries b cause after b') : b'.line = b.line ∧ b'.clock = b.clock := by
  induction h with
  | @fault name i i' rest b b' cause hpoll =>
      have hkeeps := i.poll_keeps b
      rwa [hpoll] at hkeeps
  | @later name i i' rest rest' b b₁ b' cause hpoll _ ih =>
      have hkeeps := i.poll_keeps b
      rw [hpoll] at hkeeps
      exact ⟨ih.1.trans hkeeps.1, ih.2.trans hkeeps.2⟩

end Halts

/-! ## Ticks -/

namespace Rig

variable {r r' : Rig} {b b' : Bench} {cause : RigError}

theorem tick_eq_error_iff : r.tick b = (.error cause, r', b') ↔
    Halts r.inputs.entries b cause r'.inputs.entries b' ∧ r'.outputs = r.outputs ∧
      r'.connections = r.connections := by
  have hpolls : r.tick b = (.error cause, r', b') ↔ r.pollInputs b = (.error cause, r', b') := by
    unfold tick
    generalize r.pollInputs b = polled
    obtain ⟨result, r₁, b₁⟩ := polled
    cases result <;> simp
  rw [hpolls, pollInputs_eq_iff, Halts.iff_tryList]
  constructor
  · rintro ⟨inputs, hpass, rfl⟩
    exact ⟨Registry.tryPass_eq_iff.mp hpass, rfl, rfl⟩
  · rintro ⟨hlist, houtputs, hconnections⟩
    refine ⟨r'.inputs, Registry.tryPass_eq_iff.mpr hlist, ?_⟩
    rw [← houtputs, ← hconnections]

theorem exists_tick_of_halts {after : List (String × Input)}
    (h : Halts r.inputs.entries b cause after b') :
    ∃ r', r.tick b = (.error cause, r', b') := by
  have hsorted : (after.map Prod.fst).Pairwise (· < ·) := by
    have hsame := Registry.aliases_tryList Input.poll r.inputs.entries b
    rw [h.execution] at hsame
    exact hsame ▸ r.inputs.sorted
  exact ⟨{ r with inputs := ⟨after, hsorted⟩ }, tick_eq_error_iff.mpr ⟨h, rfl, rfl⟩⟩

/-- A tick fails with the first fault among the inputs, and only then. -/
theorem tick_fst_eq_error_iff :
    (r.tick b).1 = .error cause ↔ r.inputs.values.findSome? (·.fault b) = some cause := by
  constructor
  · intro h
    cases htick : r.tick b with
    | mk result ticked =>
        obtain ⟨r', b'⟩ := ticked
        rw [htick] at h
        obtain rfl : result = .error cause := h
        exact (tick_eq_error_iff.mp htick).1.first_fault
  · intro h
    obtain ⟨i, hi, hfault⟩ := List.exists_of_findSome?_eq_some h
    obtain ⟨entry, hentry, rfl⟩ := List.mem_map.mp hi
    obtain ⟨first, after, b', hhalts⟩ :=
      Halts.exists_of_fault ⟨entry, hentry, Option.isSome_of_eq_some hfault⟩
    obtain rfl : first = cause := Option.some.inj (hhalts.first_fault.symm.trans h)
    obtain ⟨r', htick⟩ := exists_tick_of_halts hhalts
    rw [htick]

end Rig

/-- A tick fails exactly when some input has a fault, with the fault of the first.  Then the inputs
have been polled up to and with that one, and all else is as before: the other inputs, the outputs
and connections, every line, the clock, and the scheduler's period and counts. -/
theorem Scheduler.tick_halts_at_first_fault (s : Scheduler .running) (busy : Nat) (b : Bench) :
    (∀ cause, (s.rig.tick b).1 = .error cause ↔
      s.rig.inputs.values.findSome? (·.fault b) = some cause) ∧
    ∀ cause r b', s.rig.tick b = (.error cause, r, b') →
      s.tick busy b = (.error cause, { s with rig := r }, b') ∧
      Halts s.rig.inputs.entries b cause r.inputs.entries b' ∧
      r.outputs = s.rig.outputs ∧ r.connections = s.rig.connections ∧
      b'.line = b.line ∧ b'.clock = b.clock := by
  refine ⟨fun cause => Rig.tick_fst_eq_error_iff, ?_⟩
  intro cause r b' htick
  obtain ⟨hhalts, houtputs, hconnections⟩ := Rig.tick_eq_error_iff.mp htick
  obtain ⟨hlines, hclock⟩ := hhalts.keeps
  refine ⟨?_, hhalts, houtputs, hconnections, hlines, hclock⟩
  rw [Scheduler.tick, htick]

/-- A press comes in for the first gamepad, a record of no known kind for the second.  The motor
does not move, although it is to go to a new speed. -/
theorem Scheduler.tick_halts_at_first_fault_second_pad :
    let rig : Rig :=
      { inputs := .ofList [("a", .controller { id := "js0" }), ("b", .controller { id := "js1" })]
        outputs := .ofList [("arm", .constant (.make { name := .ms18, pins := [] } 0.5))] }
    let bench : Bench :=
      { waiting := [("js0", [0, 0, 0, 0, 1, 0, 1, 0]), ("js1", [0, 0, 0, 0, 0, 0, 9, 0])] }
    let s : Scheduler .running := { rig, period := 1000 }
    ∃ r b', s.tick 0 bench = (.error (.protocol (.unknownEventType 9)), { s with rig := r }, b') ∧
      r.outputs = rig.outputs ∧ b'.line = bench.line := by
  intro rig bench s
  have hqueue : bench.queue "js0" = [0, 0, 0, 0, 1, 0, 1, 0] := by decide
  have hqueue' : bench.queue "js1" = [0, 0, 0, 0, 0, 0, 9, 0] := by decide
  have hgood : Snapshot.decode {} (bench.queue "js0") =
      .ok 1 (Snapshot.setPressed {} .cross true) := by
    rw [hqueue]
    cbv
  have hbad : Snapshot.decode {} (bench.queue "js1") = .error (.unknownEventType 9) {} := by
    rw [hqueue']
    cbv
  have hfirst : rig.inputs.values.findSome? (·.fault bench) =
      some (.protocol (.unknownEventType 9)) := by
    have hnone := Input.fault_of_decode (c := { id := "js0" }) hgood
    have hsome := Input.fault_of_decode_error (c := { id := "js1" }) hbad
    have hvalues : rig.inputs.values =
        [.controller { id := "js0" }, .controller { id := "js1" }] := rfl
    rw [hvalues, List.findSome?_cons, hnone, List.findSome?_cons, hsome]
  obtain ⟨hfault, hkeeps⟩ := s.tick_halts_at_first_fault 0 bench
  cases htick : rig.tick bench with
  | mk result ticked =>
      obtain ⟨r, b'⟩ := ticked
      obtain rfl : result = .error (.protocol (.unknownEventType 9)) := by
        have hresult := (hfault _).mpr hfirst
        rwa [htick] at hresult
      obtain ⟨hstop, -, houtputs, -, hlines, -⟩ := hkeeps _ r b' htick
      exact ⟨r, b', hstop, houtputs, hlines⟩

end Patchbay
