import Patchbay.Bench.Basic

/-! # Bytes that wait

What arrives or is read under one name leaves the bytes that wait under other names alone, and takes
no time. -/

namespace Patchbay.Bench

/-- What time it is, and how time passes in sleeps. -/
def time (b : Bench) : Nat × Sleeps := (b.clock, b.sleeps)

theorem time_eq_iff {b b' : Bench} :
    b'.time = b.time ↔ b'.clock = b.clock ∧ b'.sleeps = b.sleeps :=
  .of_eq (Prod.mk.injEq ..)

theorem lookup_filter_ne {α : Type} {id other : String} (h : id ≠ other) (l : List (String × α)) :
    (l.filter (·.1 ≠ id)).lookup other = l.lookup other := by
  induction l with
  | nil => rfl
  | cons entry rest ih =>
      obtain ⟨name, bytes⟩ := entry
      by_cases hname : name = id
      · subst hname
        simpa [List.lookup_cons, beq_false_of_ne h.symm] using ih
      · simp only [List.filter_cons, decide_not, hname, decide_false, Bool.not_false, if_true,
          List.lookup_cons]
        simp only [decide_not] at ih
        rw [ih]

variable (b : Bench) (id other : String) (bytes : List UInt8)

@[simp] theorem queue_setQueue :
    (b.setQueue id bytes).queue other = if id = other then bytes else b.queue other := by
  unfold queue setQueue
  by_cases h : id = other
  · subst h
    simp
  · rw [List.lookup_cons, beq_false_of_ne (Ne.symm h), lookup_filter_ne h, if_neg h]

@[simp] theorem queue_feed :
    (b.feed id bytes).queue other = if id = other then b.queue id ++ bytes else b.queue other :=
  queue_setQueue ..

/-! ## What comes in -/

/-- What comes from outside: bytes from a gamepad, or the level of a line. -/
inductive Arrival
  | bytes (id : String) (bytes : List UInt8)
  | level (pin : UInt8) (high : Bool)

/-- The bytes that come in under an id. -/
def Arrival.fed (id : String) : Arrival → List UInt8
  | .bytes other bytes => if other = id then bytes else []
  | .level .. => []

def receive (b : Bench) : Arrival → Bench
  | .bytes id bytes => b.feed id bytes
  | .level pin high => b.setInput pin high

theorem queue_receive (a : Arrival) : (b.receive a).queue other = b.queue other ++ a.fed other := by
  cases a with
  | bytes id bytes =>
      rw [receive, queue_feed, Arrival.fed]
      by_cases h : id = other <;> simp [h]
  | level pin high => exact (List.append_nil _).symm

theorem time_receive (a : Arrival) : (b.receive a).time = b.time := by
  cases a <;> rfl

end Patchbay.Bench
