import Patchbay.Proofs.Gamepad.Polling
import Patchbay.Proofs.Output.Stepping
import Patchbay.Proofs.Registry
import Patchbay.Rig.Basic

/-! # Ticks and gamepads

A tick polls the inputs one after another, each controller with what those before it have left.
Connections and outputs come afterwards and change neither the inputs nor the bytes that wait. -/

namespace Patchbay

open Gamepad (Controller Snapshot)
open Registry (tryList)

/-! ## Controllers -/

def Input.controller? : Input → Option Controller
  | controller c => some c
  | button _ => none

/-- The controllers among inputs, in the same order. -/
def controllersOf (entries : List (String × Input)) : List Controller :=
  entries.filterMap fun entry => entry.2.controller?

/-- The controllers of a rig, in the order of their turns. -/
def Rig.controllers (r : Rig) : List Controller := controllersOf r.inputs.entries

/-- What waits under all ids, when all that waited under one has been read. -/
def readOut (waiting : String → List UInt8) (id : String) : String → List UInt8 :=
  fun other => if id = other then [] else waiting other

/-- A round of polls without a fault, of the controllers in order: what they are before and after
it, and what waits. -/
inductive Polls :
    List Controller → (String → List UInt8) → List Controller → (String → List UInt8) → Prop
  | nil {waiting} : Polls [] waiting [] waiting
  | cons {c rest rest' waiting waiting' n s} : c.snapshot.decode (waiting c.id) = .ok n s →
      Polls rest (readOut waiting c.id) rest' waiting' →
      Polls (c :: rest) waiting ({ c with snapshot := s } :: rest') waiting'

namespace Polls

variable {cs cs' : List Controller} {waiting waiting' : String → List UInt8}

theorem ids (h : Polls cs waiting cs' waiting') : cs'.map (·.id) = cs.map (·.id) := by
  induction h with
  | nil => rfl
  | cons _ _ ih => simp [ih]

/-- A round reads all that waits for its controllers, and nothing else. -/
theorem waiting_after (h : Polls cs waiting cs' waiting') (id : String) :
    waiting' id = if id ∈ cs.map (·.id) then [] else waiting id := by
  induction h with
  | nil => rfl
  | @cons c rest rest' waiting waiting' n s _ _ ih =>
      rw [ih, readOut]
      by_cases hid : c.id = id
      · simp [hid]
      · simp [hid, Ne.symm hid]

end Polls

/-! ## Polls in order -/

theorem Input.poll_button (o : Button) (b : Bench) :
    ∃ o' b', (button o).poll b = (.ok (), button o', b') ∧ b'.outside = b.outside :=
  ⟨_, _, rfl, o.outside_poll b⟩

theorem Input.poll_controller {c : Controller} {b : Bench} {n : Nat} {s : Snapshot}
    (h : c.snapshot.decode (b.queue c.id) = .ok n s) :
    ∃ b', (controller c).poll b = (.ok (), controller { c with snapshot := s }, b') ∧
      b'.queue = readOut b.queue c.id ∧ b'.time = b.time := by
  obtain ⟨b', hpoll, hqueue, htime⟩ := Controller.poll_of_ok h
  refine ⟨b', by simp only [poll, hpoll]; rfl, ?_, htime⟩
  rw [hqueue]
  exact funext fun id => Bench.queue_setQueue ..

/-- A poll without a fault has decoded what waited. -/
theorem Input.decode_of_poll_controller {c : Controller} {b b' : Bench} {i : Input}
    (h : (controller c).poll b = (.ok (), i, b')) :
    ∃ n s, c.snapshot.decode (b.queue c.id) = .ok n s := by
  cases hdecode : c.snapshot.decode (b.queue c.id) with
  | ok n s => exact ⟨n, s, rfl⟩
  | error cause s =>
      simp only [poll, Controller.poll_of_error hdecode] at h
      exact nomatch h

theorem polls_of_tryList {entries after : List (String × Input)} {b b' : Bench}
    (h : tryList Input.poll entries b = (.ok (), after, b')) :
    Polls (controllersOf entries) b.queue (controllersOf after) b'.queue ∧
      b'.time = b.time := by
  induction entries generalizing b after with
  | nil =>
      cases h
      exact ⟨.nil, rfl⟩
  | cons entry rest ih =>
      obtain ⟨name, input⟩ := entry
      obtain ⟨input', b₁, rest', hpoll, hrest, rfl⟩ := Registry.tryList_cons_eq_ok_iff.mp h
      obtain ⟨hpolls, htime⟩ := ih hrest
      cases input with
      | button o =>
          obtain ⟨o', b₂, hbutton, hout⟩ := Input.poll_button o b
          cases hbutton.symm.trans hpoll
          rw [Bench.queue_of_outside hout] at hpolls
          exact ⟨hpolls, htime.trans (Bench.time_of_outside hout)⟩
      | controller c =>
          obtain ⟨n, s, hdecode⟩ := Input.decode_of_poll_controller hpoll
          obtain ⟨b₂, hcontroller, hqueue, htime₂⟩ := Input.poll_controller hdecode
          cases hcontroller.symm.trans hpoll
          rw [hqueue] at hpolls
          exact ⟨.cons hdecode hpolls, htime.trans htime₂⟩

/-- Polls fail for no other reason than what waits. -/
theorem exists_tryList_poll (entries : List (String × Input)) {b : Bench}
    (h : ∀ c ∈ controllersOf entries, ∀ s : Snapshot, ∃ n s', s.decode (b.queue c.id) = .ok n s') :
    ∃ after b', tryList Input.poll entries b = (.ok (), after, b') := by
  induction entries generalizing b with
  | nil => exact ⟨_, _, rfl⟩
  | cons entry rest ih =>
      obtain ⟨name, input⟩ := entry
      cases input with
      | button o =>
          obtain ⟨o', b₁, hpoll, hout⟩ := Input.poll_button o b
          obtain ⟨after, b', hrest⟩ := ih (b := b₁) (by rwa [Bench.queue_of_outside hout])
          exact ⟨_, b', Registry.tryList_cons_eq_ok_iff.mpr ⟨_, _, _, hpoll, hrest, rfl⟩⟩
      | controller c =>
          obtain ⟨n, s, hdecode⟩ := h c (List.mem_cons_self ..) c.snapshot
          obtain ⟨b₁, hpoll, hqueue, _⟩ := Input.poll_controller hdecode
          have hleft : ∀ d ∈ controllersOf rest, ∀ s : Snapshot,
              ∃ n s', s.decode (b₁.queue d.id) = .ok n s' := by
            intro d hd s
            rw [hqueue, readOut]
            split
            · exact ⟨0, s, rfl⟩
            · exact h d (List.mem_cons_of_mem _ hd) s
          obtain ⟨after, b', hrest⟩ := ih hleft
          exact ⟨_, b', Registry.tryList_cons_eq_ok_iff.mpr ⟨_, _, _, hpoll, hrest, rfl⟩⟩

/-! ## Ticks -/

namespace Rig

variable {r r' : Rig} {b b' : Bench}

theorem pollInputs_eq_iff {result : Except RigError Unit} : r.pollInputs b = (result, r', b') ↔
    ∃ inputs, r.inputs.tryPass Input.poll b = (result, inputs, b') ∧ r' = { r with inputs } := by
  unfold pollInputs
  generalize r.inputs.tryPass Input.poll b = polled
  obtain ⟨result, inputs, b₁⟩ := polled
  simp only [Prod.mk.injEq]
  constructor
  · rintro ⟨rfl, rfl, rfl⟩
    exact ⟨inputs, ⟨rfl, rfl, rfl⟩, rfl⟩
  · rintro ⟨_, ⟨rfl, rfl, rfl⟩, rfl⟩
    exact ⟨rfl, rfl, rfl⟩

theorem tick_eq_ok_iff : r.tick b = (.ok (), r', b') ↔
    ∃ r₁ b₁, r.pollInputs b = (.ok (), r₁, b₁) ∧ r₁.runConnections.stepOutputs b₁ = (r', b') := by
  unfold tick
  generalize r.pollInputs b = polled
  obtain ⟨result, r₁, b₁⟩ := polled
  cases result with
  | error cause => simp
  | ok _ => simp [Prod.ext_iff]

/-- Connections and outputs leave the inputs and what is outside to the polls. -/
theorem stepOutputs_keeps (r : Rig) (b : Bench) :
    (r.runConnections.stepOutputs b).1.inputs = r.inputs ∧
      (r.runConnections.stepOutputs b).2.outside = b.outside :=
  ⟨rfl, Registry.pass_keeps (fun o b => o.outside_step b) r.runConnections.outputs b⟩

/-- A tick takes no time, and is a round of polls as far as gamepads are concerned. -/
theorem polls_of_tick (h : r.tick b = (.ok (), r', b')) :
    Polls r.controllers b.queue r'.controllers b'.queue ∧ b'.time = b.time := by
  obtain ⟨r₁, b₁, hpoll, hstep⟩ := tick_eq_ok_iff.mp h
  obtain ⟨inputs, hpass, rfl⟩ := pollInputs_eq_iff.mp hpoll
  have hkeeps := stepOutputs_keeps { r with inputs } b₁
  rw [hstep] at hkeeps
  obtain ⟨hinputs, hout⟩ := hkeeps
  obtain ⟨hpolls, htime⟩ := polls_of_tryList (Registry.tryPass_eq_iff.mp hpass)
  rw [controllers, controllers, hinputs, Bench.queue_of_outside hout]
  exact ⟨hpolls, (Bench.time_of_outside hout).trans htime⟩

/-- Ticks fail for no other reason than what waits for a controller. -/
theorem exists_tick (r : Rig) {b : Bench}
    (h : ∀ c ∈ r.controllers, ∀ s : Snapshot, ∃ n s', s.decode (b.queue c.id) = .ok n s') :
    ∃ r' b', r.tick b = (.ok (), r', b') := by
  obtain ⟨after, b', hlist⟩ := exists_tryList_poll r.inputs.entries h
  have hsorted : (after.map Prod.fst).Pairwise (· < ·) := by
    have hsame := Registry.aliases_tryList Input.poll r.inputs.entries b
    rw [hlist] at hsame
    exact hsame ▸ r.inputs.sorted
  have hpass : r.inputs.tryPass Input.poll b = (.ok (), ⟨after, hsorted⟩, b') :=
    Registry.tryPass_eq_iff.mpr hlist
  exact ⟨_, _, tick_eq_ok_iff.mpr ⟨_, _, pollInputs_eq_iff.mpr ⟨_, hpass, rfl⟩, rfl⟩⟩

end Rig

end Patchbay
