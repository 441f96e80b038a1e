import Patchbay.Input
import Patchbay.Proofs.Outcome

/-! # What a button shows

A momentary button shows what the last poll sampled.  A toggle button changes whenever a poll finds
it pressed that the poll before found released.  What happens on the line between two polls and is
over by the second shows nowhere. -/

namespace Patchbay

namespace Button

/-- A button and the bench that it is on. -/
abbrev State := Button × Bench

/-- The line of the button is given a level, or the button is polled. -/
inductive Move
  | level (high : Bool)
  | poll
deriving DecidableEq

def State.next : State → Move → State
  | (o, b), .level high => (o, b.setInput o.pin.number high)
  | (o, b), .poll => o.poll b

def State.play (s : State) (moves : List Move) : State := moves.foldl State.next s

/-- The level of a line after moves. -/
def levelAfter (high : Bool) : List Move → Bool
  | [] => high
  | .level high :: rest => levelAfter high rest
  | .poll :: rest => levelAfter high rest

/-- What the polls find on a line, in order; pressing pulls the line low. -/
def samples (high : Bool) : List Move → List Bool
  | [] => []
  | .level high :: rest => samples high rest
  | .poll :: rest => (!high) :: samples high rest

/-- How many samples are pressed right after one that is released; `first` comes before all. -/
def presses (first : Bool) (samples : List Bool) : Nat :=
  ((first :: samples).zip samples).countP fun (before, now) => !before && now

theorem presses_cons (first sample : Bool) (rest : List Bool) :
    presses first (sample :: rest) = presses sample rest + if !first && sample then 1 else 0 := by
  rw [presses, List.zip_cons_cons, List.countP_cons]
  rfl

/-- A press changes the parity of the number of presses. -/
theorem odd_presses_cons (first sample : Bool) (rest : List Bool) :
    decide (presses first (sample :: rest) % 2 = 1) =
      ((!first && sample) ^^ decide (presses sample rest % 2 = 1)) := by
  rw [presses_cons]
  split
  next hpress =>
    rw [hpress, Bool.true_xor, ← decide_not]
    congr 1
    apply propext
    omega
  next hnone => rw [eq_false_of_ne_true hnone, Bool.false_xor, Nat.add_zero]

/-! ## Polls -/

theorem next_toggle {o : Button} (h : o.toggle = true) (down : Bool) :
    o.next down = (o.value ^^ (!o.last && down)) := by
  unfold next
  rw [h]
  cases o.value <;> cases o.last <;> cases down <;> rfl

/-- As long as a momentary button shows the last sample, it shows the next one. -/
theorem next_momentary {o : Button} (h : o.toggle = false) (hvalue : o.value = o.last)
    (down : Bool) : o.next down = down := by
  unfold next
  rw [h, hvalue]
  cases o.last <;> cases down <;> rfl

theorem level_setInput (b : Bench) (pin : UInt8) (high : Bool) :
    ((b.setInput pin high).line pin).inputHigh = high := by
  rw [Bench.setInput, Bench.line_setLine, if_pos rfl]

theorem line_poll (o : Button) (b : Bench) : (o.poll b).2.line = b.line := by
  unfold poll
  dsimp only
  split <;> rfl

/-! ## Opened buttons -/

/-- The button is as it was opened, but for what it remembers. -/
def Opened (pin : UInt8) (toggle : Bool) (o : Button) : Prop :=
  o.pin = ⟨{ number := pin, invert := true }⟩ ∧ o.toggle = toggle

variable {pin : UInt8} {toggle : Bool} {o : Button} {b : Bench} {moves : List Move}

theorem attach_eq_ok {b₀ : Bench} (h : attach pin toggle b₀ = .ok o b) :
    o = { pin := ⟨{ number := pin, invert := true }⟩, toggle } := by
  obtain ⟨p, b₁, hpin, h⟩ := Outcome.run_bind_eq_ok_iff.mp h
  obtain ⟨_, b₂, _, hpin⟩ := Outcome.run_bind_eq_ok_iff.mp hpin
  cases hpin
  cases h
  rfl

namespace Opened

theorem number (h : o.Opened pin toggle) : o.pin.number = pin :=
  congrArg InputPin.number h.1

theorem isActive (h : o.Opened pin toggle) (b : Bench) :
    o.pin.isActive b = !(b.line pin).inputHigh := by
  rw [InputPin.isActive, h.number, h.1, Bool.bne_true]

theorem poll (h : o.Opened pin toggle) (b : Bench) : (o.poll b).1.Opened pin toggle := h

theorem level (h : o.Opened pin toggle) (high : Bool) :
    ((b.setInput o.pin.number high).line pin).inputHigh = high := by
  rw [h.number, level_setInput]

theorem play (h : o.Opened pin toggle) (b : Bench) (moves : List Move) :
    (State.play (o, b) moves).1.Opened pin toggle := by
  induction moves generalizing o b with
  | nil => exact h
  | cons move rest ih =>
      cases move with
      | level high => exact ih h _
      | poll => exact ih (h.poll b) _

/-! ## Runs -/

theorem value_play_toggle (h : o.Opened pin true) : (State.play (o, b) moves).1.value =
    (o.value ^^ decide (presses o.last (samples (b.line pin).inputHigh moves) % 2 = 1)) := by
  induction moves generalizing o b with
  | nil => exact (Bool.xor_false _).symm
  | cons move rest ih =>
      cases move with
      | level high =>
          change (State.play (o, b.setInput o.pin.number high) rest).1.value = _
          rw [ih h, h.level]
          rfl
      | poll =>
          change (State.play (o.poll b) rest).1.value = _
          rw [ih (h.poll b), line_poll, samples, odd_presses_cons, ← h.isActive b,
            ← Bool.xor_assoc, ← next_toggle h.2]
          rfl

theorem value_play_momentary (h : o.Opened pin false) (hvalue : o.value = o.last) :
    (State.play (o, b) moves).1.value =
      (samples (b.line pin).inputHigh moves).getLast?.getD o.last := by
  induction moves generalizing o b with
  | nil => exact hvalue
  | cons move rest ih =>
      cases move with
      | level high =>
          change (State.play (o, b.setInput o.pin.number high) rest).1.value = _
          rw [ih h hvalue, h.level]
          rfl
      | poll =>
          change (State.play (o.poll b) rest).1.value = _
          rw [ih (h.poll b) (next_momentary h.2 hvalue _), line_poll, samples, List.getLast?_cons,
            ← h.isActive b]
          rfl

end Opened

/-! ## Between polls -/

theorem setInput_setInput (b : Bench) (pin : UInt8) (high high' : Bool) :
    (b.setInput pin high).setInput pin high' = b.setInput pin high' := by
  rw [Bench.setInput, Bench.setInput, Bench.line_setLine, if_pos rfl]
  simp only [Bench.setLine, Vector.set_set, Bench.setInput]

theorem setInput_self (b : Bench) (pin : UInt8) : b.setInput pin (b.line pin).inputHigh = b := by
  have hlt := pin.toNat_lt
  change { b with lines := b.lines.set pin.toNat b.lines[pin.toNat] hlt } = b
  rw [Vector.set_getElem_self]

/-- Without a poll, only the last level counts. -/
theorem play_of_no_poll (o : Button) (b : Bench) (h : .poll ∉ moves) :
    State.play (o, b) moves =
      (o, b.setInput o.pin.number (levelAfter (b.line o.pin.number).inputHigh moves)) := by
  induction moves generalizing b with
  | nil => exact congrArg (o, ·) (setInput_self b _).symm
  | cons move rest ih =>
      rw [List.mem_cons, not_or] at h
      cases move with
      | poll => exact absurd rfl h.1
      | level high =>
          change State.play (o, b.setInput o.pin.number high) rest = _
          rw [ih _ h.2, setInput_setInput, level_setInput]
          rfl

/-- However the line of an opened button goes and whenever the button is polled: a momentary button
shows what the last poll sampled, and a toggle button is on after an odd number of presses.  What
reads the button reads a one or a zero.  Levels between two polls that lead back to the level
before them change nothing. -/
theorem shows_what_polls_sample {b₀ : Bench} (h : attach pin toggle b₀ = .ok o b)
    (moves : List Move) :
    let sampled := samples (b.line pin).inputHigh moves
    let o' := (State.play (o, b) moves).1
    (o'.value = if toggle then decide (presses false sampled % 2 = 1)
      else sampled.getLast?.getD false) ∧
    (∀ key signal, (Input.button o).find key = .ok signal →
      (Input.button o').read signal = if o'.value then 1.0 else 0.0) ∧
    ∀ before changes after, moves = before ++ changes ++ after → .poll ∉ changes →
      let level := ((State.play (o, b) before).2.line pin).inputHigh
      levelAfter level changes = level →
        State.play (o, b) moves = State.play (o, b) (before ++ after) := by
  intro sampled o'
  have ho := attach_eq_ok h
  have hopened : o.Opened pin toggle := ho ▸ ⟨rfl, rfl⟩
  have hlast : o.last = false := congrArg last ho
  have hoff : o.value = false := congrArg value ho
  refine ⟨?value, ?reading, ?between⟩
  case value =>
    cases toggle with
    | true =>
        have hvalue : o'.value = (o.value ^^ decide (presses o.last sampled % 2 = 1)) :=
          hopened.value_play_toggle
        rwa [hoff, hlast, Bool.false_xor] at hvalue
    | false =>
        have hvalue : o'.value = sampled.getLast?.getD o.last :=
          hopened.value_play_momentary (hoff.trans hlast.symm)
        rwa [hlast] at hvalue
  case reading =>
    intro key signal hfind
    obtain ⟨_, _, rfl⟩ := Outcome.map_eq_ok_iff.mp hfind
    rfl
  case between =>
    rintro before changes after rfl hpoll level hlevel
    have hchanges := play_of_no_poll (State.play (o, b) before).1 (State.play (o, b) before).2 hpoll
    rw [(hopened.play b before).number, hlevel, setInput_self] at hchanges
    simp only [State.play, List.foldl_append]
    exact congrArg (List.foldl State.next · after) hchanges

/-- A toggle button is pressed and held; it bounces between two polls, is released and pressed
again.  A momentary button has seen the same. -/
theorem shows_what_polls_sample_bounce :
    let moves : List Move := [.level false, .poll, .level true, .level false, .poll, .level true,
      .poll, .level false, .poll]
    ∃ o b o' b', attach 6 true {} = .ok o b ∧ attach 6 false {} = .ok o' b' ∧
      (State.play (o, b) moves).1.value = false ∧ (State.play (o', b') moves).1.value = true ∧
      (Input.button (State.play (o', b') moves).1).read .value = 1.0 ∧
      State.play (o, b) moves = State.play (o, b)
        [.level false, .poll, .poll, .level true, .poll, .level false, .poll] := by
  intro moves
  obtain ⟨o, b, htoggle, hlevel, hheld⟩ : ∃ o b, attach 6 true {} = .ok o b ∧
      (b.line 6).inputHigh = true ∧
      ((State.play (o, b) [.level false, .poll]).2.line 6).inputHigh = false :=
    ⟨_, _, rfl, rfl, rfl⟩
  obtain ⟨o', b', hmomentary, hlevel'⟩ : ∃ o b, attach 6 false {} = .ok o b ∧
      (b.line 6).inputHigh = true := ⟨_, _, rfl, rfl⟩
  obtain ⟨hvalue, -, hbetween⟩ := shows_what_polls_sample htoggle moves
  obtain ⟨hvalue', hreading, -⟩ := shows_what_polls_sample hmomentary moves
  rw [hlevel] at hvalue
  rw [hlevel'] at hvalue'
  refine ⟨o, b, o', b', htoggle, hmomentary, hvalue.trans (by decide), hvalue', ?_, ?_⟩
  · rw [hreading "value" .value rfl, hvalue']
    rfl
  · exact hbetween [.level false, .poll] [.level true, .level false] _ rfl (by decide) hheld.symm

end Button

end Patchbay
