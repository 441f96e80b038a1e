import Mathlib.Data.List.DropRight
import Mathlib.Data.List.Induction
import Patchbay.Timer

/-! # What a timer shows

A timer that runs shows the time since it was last started or reset.  A stop freezes what it shows
until the next start; only a reset meanwhile takes it back to zero. -/

namespace Patchbay

/-- A timer, and the time on its clock. -/
structure Stopwatch where
  timer : Timer
  now : Nat

namespace Stopwatch

/-- Something is done to the timer, or time goes by. -/
inductive Move
  | start
  | reset
  | stop
  | wait (span : Nat)
deriving DecidableEq

def next (w : Stopwatch) : Move → Stopwatch
  | .start => { w with timer := w.timer.start w.now }
  | .reset => { w with timer := w.timer.reset w.now }
  | .stop => { w with timer := w.timer.stop w.now }
  | .wait span => { w with now := w.now + span }

def play (w : Stopwatch) (moves : List Move) : Stopwatch := moves.foldl next w

/-- A new timer. -/
def made (now : Nat) : Stopwatch := ⟨.started now, now⟩

/-- The seconds that the timer shows. -/
def shown (w : Stopwatch) : Float32 := w.timer.elapsed w.now

/-- How long moves take. -/
def passed : List Move → Nat
  | [] => 0
  | .wait span :: rest => span + passed rest
  | _ :: rest => passed rest

/-- The moves since the timer was last started; it is started when it is made. -/
def sinceStart (moves : List Move) : List Move := moves.rtakeWhile (· ≠ .start)

/-- The moves since the timer was last started or reset. -/
def sinceZero (moves : List Move) : List Move :=
  moves.rtakeWhile fun move => move ≠ .start ∧ move ≠ .reset

variable {w : Stopwatch} {moves : List Move} {move : Move}

theorem play_append (moves rest : List Move) : w.play (moves ++ rest) = (w.play moves).play rest :=
  List.foldl_append

theorem play_append_singleton : w.play (moves ++ [move]) = (w.play moves).next move :=
  play_append moves [move]

theorem sinceStart_append : sinceStart (moves ++ [move]) =
    if move = .start then [] else sinceStart moves ++ [move] := by
  rw [sinceStart, List.rtakeWhile_concat, sinceStart]
  simp

theorem sinceZero_append : sinceZero (moves ++ [move]) =
    if move = .start ∨ move = .reset then [] else sinceZero moves ++ [move] := by
  rw [sinceZero, List.rtakeWhile_concat, sinceZero]
  by_cases hstart : move = .start <;> by_cases hreset : move = .reset <;> simp [hstart, hreset]

theorem passed_append (moves rest : List Move) :
    passed (moves ++ rest) = passed moves + passed rest := by
  induction moves with
  | nil => exact (Nat.zero_add _).symm
  | cons move moves ih =>
      cases move with
      | wait span => rw [List.cons_append, passed, passed, ih, Nat.add_assoc]
      | start | reset | stop => exact ih

/-! ## While it runs -/

theorem isRunning_play_iff (now : Nat) (moves : List Move) :
    ((made now).play moves).timer.isRunning ↔ .stop ∉ sinceStart moves := by
  induction moves using List.reverseRecOn with
  | nil => exact iff_of_true rfl List.not_mem_nil
  | append_singleton moves move ih =>
      rw [play_append_singleton, sinceStart_append]
      cases move with
      | start => exact iff_of_true rfl List.not_mem_nil
      | stop => simp [next, Timer.stop, Timer.isRunning]
      | reset | wait span =>
          rw [if_neg nofun, List.mem_append, List.mem_singleton, or_iff_left nofun]
          exact ih

/-- A timer that was not stopped began when the moves since the last start or reset did. -/
theorem begun_play (now : Nat) (moves : List Move) :
    ((made now).play moves).timer.begun + passed (sinceZero moves) =
      ((made now).play moves).now := by
  induction moves using List.reverseRecOn with
  | nil => rfl
  | append_singleton moves move ih =>
      rw [play_append_singleton, sinceZero_append]
      cases move with
      | start | reset => rfl
      | stop =>
          rw [if_neg (by decide), passed_append]
          exact ih
      | wait span =>
          rw [if_neg (by simp), passed_append, ← Nat.add_assoc]
          exact congrArg (· + span) ih

theorem shown_of_running (h : w.timer.isRunning) :
    w.shown = Duration.seconds (w.now - w.timer.begun) := by
  rw [shown, Timer.elapsed, Timer.span, Option.isNone_iff_eq_none.mp h, Option.getD_none]

/-! ## While it is stopped -/

/-- A timer that was stopped at `stopped` shows what it showed then, until it is reset. -/
theorem shown_play_of_stopped {stopped : Nat} (hended : w.timer.ended = some stopped)
    (hpast : stopped ≤ w.now) (hstart : .start ∉ moves) :
    (w.play moves).shown = if .reset ∈ moves then 0.0 else w.shown := by
  induction moves generalizing w with
  | nil => rfl
  | cons move rest ih =>
      rw [List.mem_cons, not_or] at hstart
      change ((w.next move).play rest).shown = _
      cases move with
      | start => exact absurd rfl hstart.1
      | stop =>
          have hsame : w.next .stop = w := by
            obtain ⟨⟨begun, ended⟩, now⟩ := w
            obtain rfl : ended = some stopped := hended
            rfl
          rw [hsame, ih hended hpast hstart.2]
          simp
      | wait span =>
          have hsame : (w.next (.wait span)).shown = w.shown := by
            simp only [shown, Timer.elapsed, Timer.span, next, hended, Option.getD_some]
          rw [ih (w := w.next (.wait span)) hended (Nat.le_add_right_of_le hpast) hstart.2, hsame]
          simp
      | reset =>
          -- The stop now comes before the beginning, so there is no time between them.
          have hzero : (w.next .reset).shown = 0.0 := by
            have hspan : stopped - w.now = 0 := Nat.sub_eq_zero_of_le hpast
            simp only [shown, Timer.elapsed, Timer.span, next, Timer.reset, hended,
              Option.getD_some, hspan]
            rfl
          rw [ih (w := w.next .reset) hended hpast hstart.2, hzero, if_pos List.mem_cons_self,
            ite_self]

theorem ended_play_le (now : Nat) (moves : List Move) :
    ∀ stopped ∈ ((made now).play moves).timer.ended, stopped ≤ ((made now).play moves).now := by
  induction moves using List.reverseRecOn with
  | nil => exact fun stopped h => nomatch h
  | append_singleton moves move ih =>
      rw [play_append_singleton]
      generalize (made now).play moves = w at ih
      cases move with
      | start => exact fun stopped h => nomatch h
      | reset => exact ih
      | wait span => exact fun stopped h => Nat.le_add_right_of_le (ih stopped h)
      | stop =>
          intro stopped h
          obtain rfl : w.timer.ended.getD w.now = stopped := Option.some.inj h
          change w.timer.ended.getD w.now ≤ w.now
          cases hended : w.timer.ended with
          | none => exact Nat.le_refl _
          | some stopped => exact ih stopped hended

/-- A timer runs unless it was stopped since its last start, and then shows the time since its last
start or reset.  A stopped timer shows what it showed at the stop until the next start, just as long
as it is not reset with something to show: then it shows zero. -/
theorem shows_frozen_iff_not_reset (now : Nat) (moves : List Move) :
    let w := (made now).play moves
    (w.timer.isRunning ↔ .stop ∉ sinceStart moves) ∧
    (w.timer.isRunning → w.shown = Duration.seconds (passed (sinceZero moves))) ∧
    ∀ before after, moves = before ++ .stop :: after → .start ∉ after →
      let frozen := ((made now).play (before ++ [.stop])).shown
      (w.shown = if .reset ∈ after then 0.0 else frozen) ∧
      (w.shown = frozen ↔ .reset ∉ after ∨ frozen = 0.0) := by
  intro w
  refine ⟨isRunning_play_iff now moves, fun hrunning => ?running, ?stopped⟩
  case running =>
    rw [shown_of_running hrunning, ← begun_play now moves, Nat.add_sub_cancel_left]
  case stopped =>
    rintro before after rfl hstart frozen
    have hpast := ended_play_le now (before ++ [.stop])
    have hshown : w.shown = if .reset ∈ after then 0.0 else frozen := by
      have hended : ((made now).play (before ++ [.stop])).timer.ended =
          some (((made now).play before).timer.ended.getD ((made now).play before).now) := by
        rw [play_append_singleton]
        rfl
      have hfrozen := shown_play_of_stopped hended (hpast _ hended) hstart
      rwa [← play_append, List.append_assoc] at hfrozen
    refine ⟨hshown, ?_⟩
    rw [hshown]
    split
    next hreset => simp [hreset, eq_comm]
    next hreset => simp [hreset]

/-- A stop, a wait and a second stop change nothing; a timer that was started again runs. -/
theorem shows_frozen_iff_not_reset_second_stop :
    let moves : List Move := [.wait 250000000, .stop, .wait 1000000000, .stop]
    let w := (made 7).play moves
    let w' := (made 7).play [.stop, .start, .wait 500000000]
    .start ∉ [Move.wait 1000000000, .stop] ∧ w.shown = 0.25 ∧
      w'.timer.isRunning ∧ w'.shown = 0.5 := by
  intro moves w w'
  obtain ⟨-, -, hstopped⟩ := shows_frozen_iff_not_reset 7 moves
  obtain ⟨hrunning, htime, -⟩ := shows_frozen_iff_not_reset 7 [.stop, .start, .wait 500000000]
  have hstart : .start ∉ [Move.wait 1000000000, .stop] := by decide
  have hfrozen := (hstopped [.wait 250000000] _ rfl hstart).2.mpr (.inl (by decide))
  have hruns : w'.timer.isRunning := hrunning.mpr (by decide)
  exact ⟨hstart, hfrozen.trans (by decide +kernel), hruns,
    (htime hruns).trans (by decide +kernel)⟩

/-- Stopped at a quarter of a second, a timer is reset and shows zero. -/
theorem reset_clears_stopped :
    ((made 0).play [.wait 250000000, .stop]).shown = 0.25 ∧
      ((made 0).play [.wait 250000000, .stop, .reset]).shown = 0.0 ∧
      .start ∉ [Move.reset] ∧ (0.25 : Float32) ≠ 0.0 := by
  decide +kernel

end Stopwatch

end Patchbay
