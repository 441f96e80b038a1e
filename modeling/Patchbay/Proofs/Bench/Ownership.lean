import Mathlib.Data.List.Nodup
import Mathlib.Data.List.Perm.Basic
import Patchbay.Proofs.Bench.Driving

/-! # Who owns a pin

Pins are attached, set and given back in any order.  A line is claimed as long as somebody has the
pin of its number, nobody else gets that pin meanwhile, and the line does what its owner told it
last. -/

namespace Patchbay

/-- A pin that somebody has, and the value it was told last; attaching tells an output pin zero. -/
structure Hold where
  pin : Pin
  told : Float32 := 0.0

namespace Hold

def number (h : Hold) : UInt8 := h.pin.number

/-- The drive for the value told last; an input pin drives nothing. -/
def drive (h : Hold) : Option Drive :=
  match h.pin with
  | .input _ => none
  | .output p => some (p.resolve h.told).2

end Hold

/-- The pins that somebody has, the newest first, and the bench that they are attached to. -/
structure Workbench where
  held : List Hold := []
  bench : Bench := {}

namespace Workbench

/-- What is done at a bench.  A pin is named by its place among those that somebody has. -/
inductive Deed
  | attach (mode : Option OutputMode) (wiring : Wiring)
  | set (place : Nat) (v : Float32)
  | detach (place : Nat)
  | setInput (pin : UInt8) (high : Bool)

/-- The fault that a deed meets, if it meets one, and the bench after it. -/
def perform (w : Workbench) : Deed → Option DeviceError × Workbench
  | .attach mode wiring =>
    match Pin.attach mode wiring w.bench with
    | .ok pin b => (none, ⟨⟨pin, 0.0⟩ :: w.held, b⟩)
    | .error cause b => (some cause, { w with bench := b })
  | .set place v =>
    match w.held[place]? with
    | none => (none, w)
    | some h =>
      match h.pin.set v w.bench with
      | .ok pin b => (none, ⟨w.held.set place ⟨pin, v⟩, b⟩)
      | .error cause b => (some cause, { w with bench := b })
  | .detach place =>
    match w.held[place]? with
    | none => (none, w)
    | some h => (none, ⟨w.held.eraseIdx place, h.pin.detach w.bench⟩)
  | .setInput pin high => (none, { w with bench := w.bench.setInput pin high })

/-- The bench after some deeds, from one where nobody has a pin. -/
def after (deeds : List Deed) : Workbench := deeds.foldl (fun w deed => (w.perform deed).2) {}

end Workbench

/-! ## Attaching -/

theorem InputPin.attach_eq (wiring : Wiring) (b : Bench) :
    attach wiring b =
      match b.refusal wiring.number with
      | some cause => .error cause b
      | none => .ok ⟨wiring⟩ (b.taken wiring.number) := by
  have hclaim := Bench.claim_eq b wiring.number
  change EStateM.bind (Bench.claim wiring.number) _ b = _
  cases hr : b.refusal wiring.number with
  | some cause =>
      rw [hr] at hclaim
      simp only [EStateM.bind, hclaim]
  | none =>
      rw [hr] at hclaim
      simp only [EStateM.bind, hclaim]
      rfl

namespace Pin

variable {b b' : Bench} {wiring : Wiring} {cause : DeviceError}

/-- A refused pin leaves the bench as it was. -/
theorem attach_of_refusal (h : b.refusal wiring.number = some cause) (mode : Option OutputMode) :
    attach mode wiring b = .error cause b := by
  cases mode with
  | none =>
      have hattach := InputPin.attach_eq wiring b
      rw [h] at hattach
      change EStateM.bind (InputPin.attach wiring) _ b = _
      simp only [EStateM.bind, hattach]
  | some mode =>
      have hattach := OutputPin.attach_eq mode wiring b
      rw [h] at hattach
      change EStateM.bind (OutputPin.attach mode wiring) _ b = _
      simp only [EStateM.bind, hattach]

/-- From the first bench to the second, a pin was attached. -/
structure Attached (pin : Pin) (wiring : Wiring) (b b' : Bench) : Prop where
  number : pin.number = wiring.number
  taken : (b'.line wiring.number).claimed
  last : (b.line wiring.number).last = none →
    (b'.line wiring.number).last = (⟨pin, 0.0⟩ : Hold).drive
  others : ∀ q, wiring.number ≠ q → b'.line q = b.line q

theorem attach_of_free (h : b.refusal wiring.number = none) (mode : Option OutputMode) :
    ∃ pin b', attach mode wiring b = .ok pin b' ∧ Attached pin wiring b b' := by
  cases mode with
  | none =>
      have hattach := InputPin.attach_eq wiring b
      rw [h] at hattach
      refine ⟨.input ⟨wiring⟩, b.taken wiring.number, ?_, rfl, ?_, ?_, ?_⟩
      · change EStateM.bind (InputPin.attach wiring) _ b = _
        simp only [EStateM.bind, hattach]
      · rw [Bench.line_taken, if_pos rfl]
      · intro hlast
        rw [Bench.line_taken, if_pos rfl]
        exact hlast
      · intro q hq
        rw [Bench.line_taken, if_neg hq]
  | some mode =>
      have hattach := OutputPin.attach_eq mode wiring b
      rw [h] at hattach
      let p : OutputPin := { wiring, mode }
      let taken := b.taken wiring.number
      refine ⟨.output (p.set 0.0 taken).1, (p.set 0.0 taken).2, ?_, rfl, ?_, ?_, ?_⟩
      · change EStateM.bind (OutputPin.attach mode wiring) _ b = _
        simp only [EStateM.bind, hattach]
        rfl
      · have hself := Bench.line_taken b wiring.number wiring.number
        rw [if_pos rfl] at hself
        rw [p.line_set, hself]
        split <;> rfl
      · intro _
        exact p.last_set 0.0 taken
      · intro q hq
        have hne : p.number ≠ q := hq
        rw [p.line_set, if_neg hne, Bench.line_taken, if_neg hq]

end Pin

namespace Workbench

/-! ## What every deed preserves -/

/-- No two of these pins are the same, and each line is what the one who has it made it. -/
structure Sound (held : List Hold) (b : Bench) : Prop where
  apart : (held.map Hold.number).Nodup
  owned : ∀ h ∈ held, (b.line h.number).claimed ∧ (b.line h.number).last = h.drive
  free : ∀ p ∉ held.map Hold.number, (b.line p).claimed = false ∧ (b.line p).last = none

namespace Sound

variable {held held' : List Hold} {h : Hold} {b b' : Bench}

theorem perm (hs : Sound held b) (hp : held.Perm held') : Sound held' b where
  apart := (hp.map _).nodup_iff.mp hs.apart
  owned h hm := hs.owned h (hp.mem_iff.mpr hm)
  free p hm := hs.free p (mt (hp.map _).mem_iff.mp hm)

theorem claimed_iff (hs : Sound held b) (p : UInt8) :
    (b.line p).claimed ↔ ∃ h ∈ held, h.number = p := by
  constructor
  · intro hc
    by_contra hfree
    rw [← List.mem_map] at hfree
    exact Bool.false_ne_true ((hs.free p hfree).1.symm.trans hc)
  · rintro ⟨h, hm, rfl⟩
    exact (hs.owned h hm).1

theorem last_iff (hs : Sound held b) (p : UInt8) (d : Drive) :
    (b.line p).last = some d ↔ ∃ h ∈ held, h.number = p ∧ h.drive = some d := by
  constructor
  · intro hlast
    by_cases hp : p ∈ held.map Hold.number
    · obtain ⟨h, hm, rfl⟩ := List.mem_map.mp hp
      exact ⟨h, hm, rfl, (hs.owned h hm).2.symm.trans hlast⟩
    · rw [(hs.free p hp).2] at hlast
      contradiction
  · rintro ⟨h, hm, rfl, hd⟩
    exact (hs.owned h hm).2.trans hd

theorem attach (hs : Sound held b) {pin : Pin} {wiring : Wiring}
    (hfree : (b.line wiring.number).claimed = false) (ha : pin.Attached wiring b b') :
    Sound (⟨pin, 0.0⟩ :: held) b' := by
  have hnew : wiring.number ∉ held.map Hold.number := by
    intro hm
    have hclaimed := (hs.claimed_iff wiring.number).mpr (List.mem_map.mp hm)
    exact Bool.false_ne_true (hfree.symm.trans hclaimed)
  have hnumber : (⟨pin, 0.0⟩ : Hold).number = wiring.number := ha.number
  refine ⟨?_, ?_, ?_⟩
  · rw [List.map_cons, hnumber]
    exact List.nodup_cons.mpr ⟨hnew, hs.apart⟩
  · intro h hm
    rcases List.mem_cons.mp hm with rfl | hm
    · rw [hnumber]
      exact ⟨ha.taken, ha.last (hs.free _ hnew).2⟩
    · have hne : wiring.number ≠ h.number := fun he => hnew (he ▸ List.mem_map_of_mem hm)
      rw [ha.others _ hne]
      exact hs.owned h hm
  · intro p hp
    rw [List.map_cons, hnumber, List.mem_cons, not_or] at hp
    rw [ha.others p (Ne.symm hp.1)]
    exact hs.free p hp.2

/-- Those who have other pins do not notice what is done to this one's line. -/
theorem number_ne (hs : Sound (h :: held) b) {other : Hold} (hm : other ∈ held) :
    h.number ≠ other.number :=
  fun he => (List.nodup_cons.mp hs.apart).1 (he ▸ List.mem_map_of_mem hm)

theorem set {p : OutputPin} {told : Float32} (hs : Sound (⟨.output p, told⟩ :: held) b)
    (v : Float32) : Sound (⟨.output (p.set v b).1, v⟩ :: held) (p.set v b).2 where
  apart := hs.apart
  owned h hm := by
    rcases List.mem_cons.mp hm with rfl | hm
    · change ((p.set v b).2.line p.number).claimed ∧ ((p.set v b).2.line p.number).last = _
      rw [p.line_set, if_pos rfl]
      exact ⟨(hs.owned _ List.mem_cons_self).1, rfl⟩
    · have hne : p.number ≠ h.number := hs.number_ne hm
      rw [p.line_set, if_neg hne]
      exact hs.owned h (List.mem_cons_of_mem _ hm)
  free q hq := by
    have hne : p.number ≠ q := fun he => hq (List.mem_cons.mpr (.inl he.symm))
    rw [OutputPin.line_set, if_neg hne]
    exact hs.free q hq

theorem detach (hs : Sound (h :: held) b) : Sound held (h.pin.detach b) where
  apart := (List.nodup_cons.mp hs.apart).2
  owned other hm := by
    have hne : h.pin.number ≠ other.number := hs.number_ne hm
    rw [Pin.detach, Bench.line_release, if_neg hne]
    exact hs.owned other (List.mem_cons_of_mem _ hm)
  free p hp := by
    rw [Pin.detach, Bench.line_release]
    by_cases he : h.pin.number = p
    · rw [if_pos he]
      exact ⟨rfl, rfl⟩
    · rw [if_neg he]
      refine hs.free p ?_
      rw [List.map_cons, List.mem_cons, not_or]
      exact ⟨Ne.symm he, hp⟩

theorem setInput (hs : Sound held b) (pin : UInt8) (high : Bool) :
    Sound held (b.setInput pin high) := by
  have hline (p : UInt8) : ((b.setInput pin high).line p).claimed = (b.line p).claimed ∧
      ((b.setInput pin high).line p).last = (b.line p).last := by
    rw [Bench.setInput, Bench.line_setLine]
    split
    next he => simp [he]
    next => simp
  refine ⟨hs.apart, ?_, ?_⟩
  · intro h hm
    rw [(hline _).1, (hline _).2]
    exact hs.owned h hm
  · intro p hp
    rw [(hline p).1, (hline p).2]
    exact hs.free p hp

end Sound

/-! ## Deeds -/

variable {w : Workbench}

theorem perform_attach_of_refusal {wiring : Wiring} {cause : DeviceError}
    (h : w.bench.refusal wiring.number = some cause) (mode : Option OutputMode) :
    w.perform (.attach mode wiring) = (some cause, w) := by
  simp only [perform, Pin.attach_of_refusal h]

theorem perform_attach_of_free {wiring : Wiring} (h : w.bench.refusal wiring.number = none)
    (mode : Option OutputMode) :
    ∃ pin b, w.perform (.attach mode wiring) = (none, ⟨⟨pin, 0.0⟩ :: w.held, b⟩) ∧
      pin.Attached wiring w.bench b := by
  obtain ⟨pin, b, hattach, ha⟩ := Pin.attach_of_free h mode
  exact ⟨pin, b, by simp only [perform, hattach], ha⟩

theorem perform_attach_fst (mode : Option OutputMode) (wiring : Wiring) :
    (w.perform (.attach mode wiring)).1 = w.bench.refusal wiring.number := by
  cases h : w.bench.refusal wiring.number with
  | some cause => rw [perform_attach_of_refusal h]
  | none =>
      obtain ⟨pin, b, hperform, -⟩ := perform_attach_of_free h mode
      rw [hperform]

/-- The pin at a place may as well be in front. -/
theorem perm_at {held : List Hold} {place : Nat} {h : Hold} (hp : held[place]? = some h) :
    held.Perm (h :: held.eraseIdx place) := by
  obtain ⟨hlt, rfl⟩ := List.getElem?_eq_some_iff.mp hp
  exact (List.getElem_cons_eraseIdx_perm hlt).symm

theorem Sound.perform (hs : Sound w.held w.bench) (deed : Deed) :
    Sound (w.perform deed).2.held (w.perform deed).2.bench := by
  cases deed with
  | attach mode wiring =>
      cases hr : w.bench.refusal wiring.number with
      | some cause =>
          rw [perform_attach_of_refusal hr]
          exact hs
      | none =>
          obtain ⟨pin, b, hperform, ha⟩ := perform_attach_of_free hr mode
          rw [hperform]
          exact hs.attach (Bench.free_of_refusal hr) ha
  | set place v =>
      cases hplace : w.held[place]? with
      | none => simpa only [Workbench.perform, hplace] using hs
      | some h =>
          obtain ⟨pin, told⟩ := h
          simp only [Workbench.perform, hplace]
          cases pin with
          | input p => exact hs
          | output p =>
              have hlt := (List.getElem?_eq_some_iff.mp hplace).1
              exact ((hs.perm (perm_at hplace)).set v).perm (List.set_perm_cons_eraseIdx hlt _).symm
  | detach place =>
      cases hplace : w.held[place]? with
      | none => simpa only [Workbench.perform, hplace] using hs
      | some h =>
          simp only [Workbench.perform, hplace]
          exact (hs.perm (perm_at hplace)).detach
  | setInput pin high => exact hs.setInput pin high

theorem sound_after (deeds : List Deed) : Sound (after deeds).held (after deeds).bench := by
  suffices ∀ w : Workbench, Sound w.held w.bench →
      Sound (deeds.foldl (fun w deed => (w.perform deed).2) w).held
        (deeds.foldl (fun w deed => (w.perform deed).2) w).bench by
    refine this {} ⟨List.nodup_nil, by simp, fun p _ => ?_⟩
    simp [Bench.line]
  intro w hs
  induction deeds generalizing w with
  | nil => exact hs
  | cons deed deeds ih => exact ih _ (hs.perform deed)

/-! ## Runs -/

theorem perform_set (place : Nat) (v : Float32) {h : Hold} (hp : w.held[place]? = some h) :
    (w.perform (.set place v)).1 =
      match h.pin with
      | .input p => some (.inputPinWrite p.number)
      | .output _ => none := by
  obtain ⟨pin, told⟩ := h
  simp only [perform, hp]
  cases pin <;> rfl

theorem perform_of_fault {deed : Deed} {cause : DeviceError}
    (hf : (w.perform deed).1 = some cause) : (w.perform deed).2 = w := by
  cases deed with
  | attach mode wiring =>
      rw [perform_attach_fst] at hf
      rw [perform_attach_of_refusal hf]
  | set place v =>
      cases hplace : w.held[place]? with
      | none => simp only [perform, hplace]
      | some h =>
          obtain ⟨pin, told⟩ := h
          simp only [perform, hplace] at hf ⊢
          cases pin with
          | input p => rfl
          | output p => exact nomatch hf
  | detach place =>
      cases hplace : w.held[place]? with
      | none => simp only [perform, hplace]
      | some h =>
          simp only [perform, hplace] at hf
          contradiction
  | setInput pin high => exact nomatch hf

/-- After any deeds, no two of the pins that somebody has have one number, a line is claimed exactly
while somebody has its pin, and it does exactly what that pin was told last.  A deed that meets a
fault changes nothing.  Attaching meets one exactly when the pin is not on the board or somebody has
it, and setting when the pin is an input.  Giving a pin back changes its own line only, which keeps
its level and its count. -/
theorem after_owns (deeds : List Deed) :
    let w := after deeds
    (w.held.map Hold.number).Nodup ∧
    (∀ p, (w.bench.line p).claimed ↔ ∃ h ∈ w.held, h.number = p) ∧
    (∀ p d, (w.bench.line p).last = some d ↔ ∃ h ∈ w.held, h.number = p ∧ h.drive = some d) ∧
    (∀ deed cause, (w.perform deed).1 = some cause → (w.perform deed).2 = w) ∧
    (∀ mode wiring, (w.perform (.attach mode wiring)).1 =
      if 27 < wiring.number.toNat then some (.pinOutOfRange wiring.number)
      else if ∃ h ∈ w.held, h.number = wiring.number then some (.pinBusy wiring.number)
      else none) ∧
    (∀ place v h, w.held[place]? = some h → (w.perform (.set place v)).1 =
      match h.pin with
      | .input p => some (.inputPinWrite p.number)
      | .output _ => none) ∧
    (∀ place h, w.held[place]? = some h →
      (w.perform (.detach place)).1 = none ∧
      ∀ p, (w.perform (.detach place)).2.bench.line p =
        if h.number = p then { w.bench.line p with claimed := false, last := none }
        else w.bench.line p) := by
  intro w
  have hs : Sound w.held w.bench := sound_after deeds
  refine ⟨hs.apart, hs.claimed_iff, hs.last_iff, fun _ _ => perform_of_fault, ?_,
    fun place v h hp => perform_set place v hp, ?_⟩
  · intro mode wiring
    rw [perform_attach_fst, Bench.refusal]
    simp only [hs.claimed_iff]
  · intro place h hp
    simp only [perform, hp]
    exact ⟨trivial, fun p => Bench.line_release ..⟩

/-- While somebody drives pin 4, nobody else gets it, and its line keeps its drive. -/
theorem after_owns_busy_pin :
    let w := after [.attach (some .level) { number := 4 }, .set 0 1.0, .attach none { number := 5 }]
    (w.perform (.attach (some .pwm) { number := 4 })).1 = some (.pinBusy 4) ∧
      (w.perform (.attach (some .pwm) { number := 4 })).2 = w ∧
      (w.bench.line 4).last = some (.level true) := by
  intro w
  obtain ⟨-, -, hlast, hfault, hattach, -, -⟩ := after_owns
    [.attach (some .level) { number := 4 }, .set 0 1.0, .attach none { number := 5 }]
  have hheld : ∃ h ∈ w.held, h.number = 4 ∧ h.drive = some (.level true) := by
    refine ⟨_, List.mem_of_getElem? (rfl : w.held[1]? = _), rfl, ?_⟩
    decide +kernel
  have hbusy : (w.perform (.attach (some .pwm) { number := 4 })).1 = some (.pinBusy 4) := by
    rw [hattach, if_neg (by decide), if_pos]
    obtain ⟨h, hm, hnumber, -⟩ := hheld
    exact ⟨h, hm, hnumber⟩
  exact ⟨hbusy, hfault _ _ hbusy, (hlast 4 _).mpr hheld⟩

end Workbench

end Patchbay
