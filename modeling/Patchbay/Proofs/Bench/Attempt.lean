import Patchbay.Bench.Pin
import Patchbay.Proofs.Bench.Lines

/-! # Attempts

A step that takes pins as part of its work takes all of them or none.  Such steps are put together
from others that do, and from steps that leave all lines alone. -/

namespace Patchbay

open Bench (Takes Restores)

variable {ε δ α β : Type}

/-- How an attempt to take pins ends, seen from the bench before it: it gives something with `Q`
and all the pins are taken, or it fails and none is. -/
inductive Attempt (pins : List UInt8) (Q : α → Prop) (b : Bench) :
    EStateM.Result ε Bench α → Prop
  | ok {a : α} {b' : Bench} : Q a → Takes pins b b' → Attempt pins Q b (.ok a b')
  | error {cause : ε} {b' : Bench} : Restores pins b b' → Attempt pins Q b (.error cause b')

namespace Attempt

variable {pins more : List UInt8} {Q : α → Prop} {Q' : β → Prop} {b b₀ b₁ : Bench}

theorem perm {r : EStateM.Result ε Bench α} (h : Attempt pins Q b r) (hp : pins.Perm more) :
    Attempt more Q b r := by
  cases h with
  | ok ha ht => exact .ok ha (ht.perm hp)
  | error hr => exact .error (hr.mono hp.subset)

theorem imp {R : α → Prop} {r : EStateM.Result ε Bench α} (h : Attempt pins Q b r)
    (hQ : ∀ a, Q a → R a) : Attempt pins R b r := by
  cases h with
  | ok ha ht => exact .ok (hQ _ ha) ht
  | error hr => exact .error hr

/-- Before an attempt, a step that cannot fail may leave all lines alone. -/
theorem of_line {r : EStateM.Result ε Bench α} (h : Attempt pins Q b₁ r)
    (hl : b₁.line = b.line) : Attempt pins Q b r := by
  cases h with
  | ok ha ht => exact .ok ha (ht.of_before hl)
  | error hr => exact .error (hr.of_before hl)

/-! ## Putting attempts together -/

theorem of_throw (cause : ε) : Attempt pins Q b ((throw cause : EStateM ε Bench α) b) :=
  .error (.of_line rfl)

theorem of_pure {a : α} (ha : Q a) : Attempt [] Q b ((pure a : EStateM ε Bench α) b) :=
  .ok ha (.nil rfl)

/-- What comes after an attempt may take more, as long as a fault undoes the whole. -/
theorem bind_more {x : EStateM ε Bench α} {f : α → EStateM ε Bench β}
    (hx : Attempt pins Q b₀ (x b)) (hs : pins ⊆ more)
    (hf : ∀ a b₁, Q a → Takes pins b₀ b₁ → Attempt more Q' b₀ (f a b₁)) :
    Attempt more Q' b₀ ((x >>= f) b) := by
  change Attempt more Q' b₀ (EStateM.bind x f b)
  unfold EStateM.bind
  generalize x b = r at hx
  cases hx with
  | ok ha ht => exact hf _ _ ha ht
  | error hr => exact .error (hr.mono hs)

/-- After an attempt, a step that cannot fail may change what holds the pins, but no line. -/
theorem bind {x : EStateM ε Bench α} {f : α → EStateM ε Bench β} (hx : Attempt pins Q b₀ (x b))
    (hf : ∀ a b₁, Q a → ∃ c b₂, f a b₁ = .ok c b₂ ∧ Q' c ∧ b₂.line = b₁.line) :
    Attempt pins Q' b₀ ((x >>= f) b) := by
  refine hx.bind_more (List.Subset.refl _) fun a b₁ ha ht => ?_
  obtain ⟨c, b₂, hc, hQ, hline⟩ := hf a b₁ ha
  rw [hc]
  exact .ok hQ (ht.then_lines hline)

theorem map {x : EStateM ε Bench α} {f : α → β} (hx : Attempt pins Q b (x b))
    (hf : ∀ a, Q a → Q' (f a)) : Attempt pins Q' b ((f <$> x) b) :=
  hx.bind fun a _ ha => ⟨f a, _, rfl, hf a ha, rfl⟩

theorem adaptExcept {x : EStateM ε Bench α} {f : ε → δ} (hx : Attempt pins Q b (x b)) :
    Attempt pins Q b (x.adaptExcept f b) := by
  unfold EStateM.adaptExcept
  generalize x b = r at hx
  cases hx with
  | ok ha ht => exact .ok ha ht
  | error hr => exact .error hr

/-- What would come after a fault does not matter. -/
theorem throw_bind {cause : ε} {f : β → EStateM ε Bench α} :
    Attempt pins Q b (((throw cause : EStateM ε Bench β) >>= f) b) :=
  .error (.of_line rfl)

theorem modify_bind {change : Bench → Bench} {f : Unit → EStateM ε Bench α}
    (hc : (change b).line = b.line) (hf : Attempt pins Q (change b) (f () (change b))) :
    Attempt pins Q b ((modify change >>= f) b) :=
  hf.of_line hc

end Attempt

/-! ## Pins -/

namespace Bench

theorem boardPin_ok {pin number : UInt8} (h : boardPin pin = .ok number) : pin.toNat ≤ 27 := by
  unfold boardPin at h
  split at h
  next hn =>
    have hlt := (List.getElem?_eq_some_iff.mp hn).1
    exact Nat.le_of_lt_succ hlt
  next => exact nomatch h

theorem claim_attempt (pin : UInt8) (b : Bench) :
    Attempt [pin] (fun _ => True) b (claim pin b) := by
  unfold claim
  cases hp : boardPin pin with
  | error cause => exact .of_throw cause
  | ok number =>
      by_cases hc : (b.line pin).claimed
      · simp only [hc, if_true]
        exact .of_throw _
      · simp only [hc]
        refine .ok trivial ⟨by simp, ?_, ?_, ?_, ?_⟩
        · simpa using boardPin_ok hp
        · simpa [claimed] using hc
        · simp [claimed]
        · intro q hq
          rw [line_setLine, if_neg (by simpa [eq_comm] using hq)]

/-- Whoever has a line may drive it. -/
theorem Takes.write {pins : List UInt8} {b b₁ : Bench} (h : Takes pins b b₁) {pin : UInt8}
    (hp : pin ∈ pins) (d : Drive) : Takes pins b (b₁.write pin d) where
  nodup := h.nodup
  onBoard := h.onBoard
  free := h.free
  taken p hm := by
    change ((b₁.write pin d).line p).claimed
    rw [line_write]
    split <;> exact h.taken p hm
  others p hn := by
    have hne : pin ≠ p := by
      rintro rfl
      exact hn hp
    rw [line_write, if_neg hne, h.others p hn]

end Bench

theorem InputPin.attach_attempt (wiring : Wiring) (b : Bench) :
    Attempt [wiring.number] (fun p => number p = wiring.number) b (attach wiring b) :=
  (Bench.claim_attempt wiring.number b).bind fun _ _ _ => ⟨⟨wiring⟩, _, rfl, rfl, rfl⟩

namespace OutputPin

theorem attach_attempt (mode : OutputMode) (wiring : Wiring) (b : Bench) :
    Attempt [wiring.number] (fun p => p.number = wiring.number) b (attach mode wiring b) := by
  refine (Bench.claim_attempt wiring.number b).bind_more (List.Subset.refl _) fun _ b₁ _ ht => ?_
  exact .ok rfl (ht.write (List.mem_singleton_self _) _)

/-- The first pin that cannot be taken makes those before it be given back. -/
theorem attachAll_attempt (mode : OutputMode) (wirings : List Wiring) (b : Bench) :
    Attempt (wirings.map Wiring.number) (fun pins => pins.map number = wirings.map Wiring.number)
      b (attachAll mode wirings b) := by
  induction wirings generalizing b with
  | nil => exact .ok rfl (.nil rfl)
  | cons wiring rest ih =>
      rw [attachAll, List.map_cons]
      have hfirst := attach_attempt mode wiring b
      generalize attach mode wiring b = first at hfirst
      cases hfirst with
      | error hr => exact .error (hr.mono (by simp))
      | @ok pin b₁ hpin ht =>
          have hrest := ih b₁
          dsimp only
          generalize attachAll mode rest b₁ = others at hrest
          cases hrest with
          | error hr =>
              rw [← hpin] at ht ⊢
              exact .error (ht.undo hr)
          | ok hpins ht' => exact .ok (congrArg₂ List.cons hpin hpins) (ht.append ht')

/-- Pins that are wired by their numbers. -/
theorem attachAll_map_attempt (mode : OutputMode) (wire : UInt8 → Wiring)
    (hw : ∀ number, (wire number).number = number) (pins : List UInt8) (b : Bench) :
    Attempt pins (fun taken => taken.map number = pins) b (attachAll mode (pins.map wire) b) := by
  have hnumbers : (pins.map wire).map Wiring.number = pins := by
    rw [List.map_map, show Wiring.number ∘ wire = id from funext hw, List.map_id]
  simpa only [hnumbers] using attachAll_attempt mode (pins.map wire) b

end OutputPin

end Patchbay
