import Patchbay.Proofs.Rig.Ticking
import Patchbay.Scheduler

/-! # Stopping a scheduler

A scheduler shares its thread with the task that asks it to stop, which gets a turn only while a
tick is suspended.  A tick that leaves nothing to sleep is not suspended at all, so a request is
noticed for certain only when sleeps keep coming. -/

namespace Patchbay

/-- What happens between two looks at the flag: what comes in, and how long the tick is busy. -/
structure Round where
  arrivals : List Bench.Arrival := []
  busy : Nat := 0

def Round.arrive (x : Round) (b : Bench) : Bench := x.arrivals.foldl Bench.receive b

theorem Round.time_arrive (x : Round) (b : Bench) : (x.arrive b).time = b.time := by
  unfold arrive
  induction x.arrivals generalizing b with
  | nil => rfl
  | cons a rest ih => exact (ih (b.receive a)).trans (b.time_receive a)

theorem Round.clock_arrive (x : Round) (b : Bench) : (x.arrive b).clock = b.clock :=
  (Bench.time_eq_iff.mp (x.time_arrive b)).1

namespace Scheduler

/-! ## Ticks -/

variable {s s' : Scheduler .running} {b b' : Bench} {busy : Nat}

theorem tick_eq_ok_iff : s.tick busy b = (.ok (), s', b') ↔
    ∃ rig b₁, s.rig.tick b = (.ok (), rig, b₁) ∧
      { s with rig }.sleep busy (b₁.advance busy) = (s', b') := by
  unfold tick
  generalize s.rig.tick b = ticked
  obtain ⟨result, rig, b₁⟩ := ticked
  cases result with
  | error cause => simp
  | ok _ => simp [Prod.ext_iff]

theorem clock_sleep (s : Scheduler .running) (busy : Nat) (b : Bench) :
    (s.sleep busy b).2.clock =
      b.clock + if busy < s.period then b.sleeps.lasts b.clock (s.period - busy) else 0 := by
  unfold sleep
  dsimp only
  by_cases h : busy < s.period
  · rw [if_pos h, if_neg (Nat.sub_ne_zero_of_lt h)]
    rfl
  · rw [if_neg h, if_pos (Nat.sub_eq_zero_of_le (Nat.le_of_not_lt h))]
    rfl

theorem sleep_keeps (s : Scheduler .running) (busy : Nat) (b : Bench) :
    (s.sleep busy b).2.queue = b.queue ∧ (s.sleep busy b).2.sleeps = b.sleeps := by
  unfold sleep
  dsimp only
  split <;> exact ⟨rfl, rfl⟩

/-- A tick takes the time that it is busy, and that of the sleep for what is left of the period. -/
theorem clock_tick (h : s.tick busy b = (.ok (), s', b')) :
    b'.clock = b.clock + busy +
      if busy < s.period then b.sleeps.lasts (b.clock + busy) (s.period - busy) else 0 := by
  obtain ⟨rig, b₁, hrig, hsleep⟩ := tick_eq_ok_iff.mp h
  obtain ⟨hclock, hsleeps⟩ := Bench.time_eq_iff.mp (Rig.polls_of_tick hrig).2
  have hslept := clock_sleep { s with rig } busy (b₁.advance busy)
  rw [hsleep] at hslept
  rw [← hclock, ← hsleeps]
  exact hslept

theorem period_tick (h : s.tick busy b = (.ok (), s', b')) : s'.period = s.period := by
  obtain ⟨rig, b₁, _, hsleep⟩ := tick_eq_ok_iff.mp h
  cases hsleep
  rfl

theorem sleeps_tick (h : s.tick busy b = (.ok (), s', b')) : b'.sleeps = b.sleeps := by
  obtain ⟨rig, b₁, hrig, hsleep⟩ := tick_eq_ok_iff.mp h
  have hkept := (sleep_keeps { s with rig } busy (b₁.advance busy)).2
  rw [hsleep] at hkept
  exact hkept.trans (Bench.time_eq_iff.mp (Rig.polls_of_tick hrig).2).2

theorem le_clock_tick (h : s.tick busy b = (.ok (), s', b')) : b.clock + busy ≤ b'.clock :=
  clock_tick h ▸ Nat.le_add_right ..

/-- Others get a turn in a tick while it sleeps.  The clock shows whether it does. -/
def suspends (busy : Nat) (before after : Bench) : Bool := before.clock + busy < after.clock

theorem suspends_iff (h : s.tick busy b = (.ok (), s', b')) :
    suspends busy b b' ↔ busy < s.period := by
  rw [suspends, decide_eq_true_eq, clock_tick h]
  by_cases hbusy : busy < s.period
  · have hpos := b.sleeps.lasts_pos (b.clock + busy) _ (Nat.sub_pos_of_lt hbusy)
    simp only [hbusy, if_true, iff_true]
    omega
  · simp only [hbusy, if_false, iff_false]
    omega

/-- Time goes on in a tick that leaves something of the period. -/
theorem lt_clock_tick (h : s.tick busy b = (.ok (), s', b')) (hbusy : busy < s.period) :
    b.clock + busy < b'.clock :=
  of_decide_eq_true ((suspends_iff h).mpr hbusy)

/-! ## Runs -/

/-- A run goes on, with shutdown asked for or not, or it is over. -/
inductive Run
  | going (s : Scheduler .running) (b : Bench) (asked : Bool)
  | ended (ending : Ending) (b : Bench)

namespace Run

/-- One round.  Whether shutdown was asked for is looked at before the tick.  Somebody may want to ask
for it from the time `due` on, but can do so only in a turn of their own, while the tick sleeps. -/
def round (due : Option Nat) (x : Round) : Run → Run
  | going s b true =>
    ended (.stopped s.stop) (b.note .info s!"Shutdown requested after {s.stats.ticks} ticks")
  | going s b false =>
    match s.tick x.busy (x.arrive b) with
    | (.error cause, s, after) => ended (.failed cause) (s.giveUp cause after)
    | (.ok (), s, after) =>
      going s after (suspends x.busy (x.arrive b) after && due.any (· ≤ after.clock))
  | ended ending b => ended ending b

/-- The first `n` rounds. -/
def rounds (due : Option Nat) (x : Nat → Round) (run : Run) : Nat → Run
  | 0 => run
  | n + 1 => (run.rounds due x n).round due (x n)

end Run

/-- What a tick of a run can do, whoever wants to ask for shutdown. -/
theorem Run.round_going (x : Round) (s : Scheduler .running) (b : Bench) :
    (∃ cause b', ∀ due, (going s b false).round due x = ended (.failed cause) b') ∨
      ∃ s' b', s'.period = s.period ∧ b.clock ≤ b'.clock ∧
        (x.busy < s.period → b.clock < b'.clock) ∧
        ∀ due, (going s b false).round due x =
          going s' b' (decide (x.busy < s.period) && due.any (· ≤ b'.clock)) := by
  cases htick : s.tick x.busy (x.arrive b) with
  | mk result after =>
      obtain ⟨s', b'⟩ := after
      cases result with
      | error cause =>
          refine .inl ⟨cause, s'.giveUp cause b', fun due => ?_⟩
          rw [round, htick]
      | ok _ =>
          have hsuspends : suspends x.busy (x.arrive b) b' = decide (x.busy < s.period) :=
            Bool.eq_iff_iff.mpr ((suspends_iff htick).trans decide_eq_true_iff.symm)
          have hle := le_clock_tick htick
          have hlt := lt_clock_tick htick
          rw [x.clock_arrive] at hle hlt
          refine .inr ⟨s', b', period_tick htick, by omega, by omega, fun due => ?_⟩
          rw [round, htick]
          simp only [hsuspends]

/-- A run from its start, when nobody has asked for shutdown yet. -/
def run (s : Scheduler .running) (b : Bench) (x : Nat → Round) (due : Option Nat) (n : Nat) : Run :=
  (Run.going s b false).rounds due x n

section Runs

open Run (going ended)

variable (s : Scheduler .running) (b : Bench) (x : Nat → Round) {due m n : Nat}

theorem run_succ (due : Option Nat) : s.run b x due (n + 1) = (s.run b x due n).round due (x n) :=
  rfl

/-- When nobody asks for shutdown, nothing but a fault ends a run. -/
theorem run_none (n : Nat) :
    (∃ s' b', s.run b x none n = going s' b' false ∧ s'.period = s.period) ∨
      ∃ cause b', s.run b x none n = ended (.failed cause) b' := by
  induction n with
  | zero => exact .inl ⟨s, b, rfl, rfl⟩
  | succ n ih =>
      rw [run_succ]
      rcases ih with ⟨s₁, b₁, hrun, hperiod⟩ | ⟨cause, b₁, hrun⟩
      · rcases Run.round_going (x n) s₁ b₁ with ⟨cause, b₂, hround⟩ | ⟨s₂, b₂, hsame, _, _, hround⟩
        · exact .inr ⟨cause, b₂, by rw [hrun, hround]⟩
        · exact .inl ⟨s₂, b₂, by simp [hrun, hround], hsame.trans hperiod⟩
      · exact .inr ⟨cause, b₁, by rw [hrun]; rfl⟩

/-- While a run goes on, its clock does not go back, and goes on with each sleep. -/
theorem run_none_succ {s₂ : Scheduler .running} {b₂ : Bench}
    (h : s.run b x none (n + 1) = going s₂ b₂ false) :
    ∃ s₁ b₁, s.run b x none n = going s₁ b₁ false ∧ b₁.clock ≤ b₂.clock ∧
      ((x n).busy < s.period → b₁.clock < b₂.clock) ∧
      ∀ due, (going s₁ b₁ false).round due (x n) =
        going s₂ b₂ (decide ((x n).busy < s.period) && due.any (· ≤ b₂.clock)) := by
  rw [run_succ] at h
  rcases s.run_none b x n with ⟨s₁, b₁, hrun, hperiod⟩ | ⟨cause, b₁, hrun⟩
  · rw [hrun] at h
    rcases Run.round_going (x n) s₁ b₁ with ⟨cause, b', hround⟩ | ⟨s', b', _, hle, hlt, hround⟩
    · rw [hround] at h
      exact nomatch h
    · simp only [hround, Option.any_none, Bool.and_false] at h
      cases h
      rw [hperiod] at hlt hround
      exact ⟨s₁, b₁, hrun, hle, hlt, hround⟩
  · rw [hrun] at h
    exact nomatch h

theorem clock_le_of_run_none (hmn : m ≤ n) {s₂ : Scheduler .running} {b₂ : Bench}
    (h : s.run b x none n = going s₂ b₂ false) :
    ∃ s₁ b₁, s.run b x none m = going s₁ b₁ false ∧ b₁.clock ≤ b₂.clock := by
  induction hmn generalizing s₂ b₂ with
  | refl => exact ⟨s₂, b₂, h, Nat.le_refl _⟩
  | step _ ih =>
      obtain ⟨s₁, b₁, hrun, hle, _⟩ := s.run_none_succ b x h
      obtain ⟨s₀, b₀, hstart, hle₀⟩ := ih hrun
      exact ⟨s₀, b₀, hstart, Nat.le_trans hle₀ hle⟩

/-! ## Requests -/

/-- In the run without a request, a tick is suspended and ends when the time `due` has come. -/
def Heeds (due : Nat) : Prop :=
  ∃ n s' b', s.run b x none (n + 1) = going s' b' false ∧ (x n).busy < s.period ∧ due ≤ b'.clock

def Stops (due : Nat) : Prop :=
  ∃ n s' b', s.run b x (some due) n = ended (.stopped s') b'

/-- Until a request is noticed, a run is the same as without one. -/
theorem run_some (due n : Nat) :
    s.run b x (some due) n = s.run b x none n ∨ s.Heeds b x due ∧ s.Stops b x due := by
  induction n with
  | zero => exact .inl rfl
  | succ n ih =>
      rcases ih with hsame | hdone
      · rcases s.run_none b x n with ⟨s₁, b₁, hrun, hperiod⟩ | ⟨cause, b₁, hrun⟩
        · rcases Run.round_going (x n) s₁ b₁ with ⟨cause, b₂, hround⟩ | ⟨s₂, b₂, _, _, _, hround⟩
          · left
            rw [run_succ, run_succ, hsame, hrun, hround, hround]
          · rw [hperiod] at hround
            have hnone : s.run b x none (n + 1) = going s₂ b₂ false := by
              simp [run_succ, hrun, hround]
            by_cases hnotice : (x n).busy < s.period ∧ due ≤ b₂.clock
            · have hasked : s.run b x (some due) (n + 1) = going s₂ b₂ true := by
                simp [run_succ, hsame, hrun, hround, hnotice]
              refine .inr ⟨⟨n, s₂, b₂, hnone, hnotice⟩, n + 2, s₂.stop, ?_⟩
              exact ⟨_, by rw [run_succ, hasked]; rfl⟩
            · left
              simpa [run_succ, hsame, hrun, hround] using hnotice
        · left
          rw [run_succ, run_succ, hsame, hrun]
          rfl
      · exact .inr hdone

theorem stops_iff_heeds : s.Stops b x due ↔ s.Heeds b x due := by
  constructor
  · rintro ⟨n, s', b', hstop⟩
    rcases s.run_some b x due n with hsame | ⟨hheeds, _⟩
    · -- Without a request a run is not stopped.
      rw [hstop] at hsame
      rcases s.run_none b x n with ⟨s₁, b₁, hrun, _⟩ | ⟨cause, b₁, hrun⟩
      · exact nomatch hsame.trans hrun
      · exact nomatch hsame.trans hrun
    · exact hheeds
  · rintro ⟨n, s₂, b₂, hrun, hbusy, hdue⟩
    obtain ⟨s₁, b₁, hbefore, _, _, hround⟩ := s.run_none_succ b x hrun
    rcases s.run_some b x due n with hsame | ⟨_, hstops⟩
    · have hasked : s.run b x (some due) (n + 1) = going s₂ b₂ true := by
        simp [run_succ, hsame, hbefore, hround, hbusy, hdue]
      exact ⟨n + 2, s₂.stop, _, by rw [run_succ, hasked]; rfl⟩
    · exact hstops

/-- When sleeps keep coming, every time comes while others have a turn. -/
theorem heeds_of_sleeps (hgoing : ∀ n, ∃ s' b', s.run b x none n = going s' b' false)
    (hsleeps : ∀ m, ∃ n, m ≤ n ∧ (x n).busy < s.period) (due : Nat) : s.Heeds b x due := by
  induction due with
  | zero =>
      obtain ⟨n, _, hbusy⟩ := hsleeps 0
      obtain ⟨s₁, b₁, hrun⟩ := hgoing (n + 1)
      exact ⟨n, s₁, b₁, hrun, hbusy, Nat.zero_le _⟩
  | succ due ih =>
      obtain ⟨m, s₁, b₁, hrun, _, hdue⟩ := ih
      obtain ⟨n, hmn, hbusy⟩ := hsleeps (m + 1)
      obtain ⟨s₃, b₃, hafter⟩ := hgoing (n + 1)
      obtain ⟨s₂, b₂, hbefore, _, hlt, _⟩ := s.run_none_succ b x hafter
      obtain ⟨s₁', b₁', hrun', hle⟩ := s.clock_le_of_run_none b x hmn hbefore
      cases hrun.symm.trans hrun'
      have := hlt hbusy
      exact ⟨n, s₃, b₃, hafter, hbusy, by omega⟩

/-- After the last sleep there comes a time that nobody can ask for shutdown at. -/
theorem sleeps_of_heeds (hgoing : ∀ n, ∃ s' b', s.run b x none n = going s' b' false)
    (hheeds : ∀ due, s.Heeds b x due) (m : Nat) : ∃ n, m ≤ n ∧ (x n).busy < s.period := by
  obtain ⟨s₁, b₁, hrun⟩ := hgoing m
  obtain ⟨n, s₂, b₂, hafter, hbusy, hdue⟩ := hheeds (b₁.clock + 1)
  refine ⟨n, Decidable.byContradiction fun hlt => ?_, hbusy⟩
  obtain ⟨s₂', b₂', hafter', hle⟩ := s.clock_le_of_run_none b x (show n + 1 ≤ m by omega) hrun
  cases hafter.symm.trans hafter'
  omega

/-- A run with a request is over sometime just when there is a fault or the request is heeded. -/
theorem exists_ended_iff : (∃ n ending b', s.run b x (some due) n = ended ending b') ↔
    (∃ n cause b', s.run b x none n = ended (.failed cause) b') ∨ s.Heeds b x due := by
  constructor
  · rintro ⟨n, ending, b', hended⟩
    rcases s.run_some b x due n with hsame | ⟨hheeds, _⟩
    · rcases s.run_none b x n with ⟨s₁, b₁, hrun, _⟩ | ⟨cause, b₁, hrun⟩
      · rw [hsame, hrun] at hended
        exact nomatch hended
      · exact .inl ⟨n, cause, b₁, hrun⟩
    · exact .inr hheeds
  · rintro (⟨n, cause, b₁, hrun⟩ | hheeds)
    · rcases s.run_some b x due n with hsame | ⟨_, k, s', b', hstop⟩
      · exact ⟨n, _, b₁, hsame.trans hrun⟩
      · exact ⟨k, _, b', hstop⟩
    · obtain ⟨k, s', b', hstop⟩ := (s.stops_iff_heeds b x).mpr hheeds
      exact ⟨k, _, b', hstop⟩

/-- In any run: a tick is suspended when it is busy for less than the period, and not otherwise.  A
request is noticed when it comes before the end of such a tick.  So all requests are noticed, unless
the run ends with a fault, just when such ticks keep coming. -/
theorem run_notices_iff :
    (∀ n s₁ b₁ s₂ b₂, s.run b x none n = going s₁ b₁ false →
      s₁.tick (x n).busy ((x n).arrive b₁) = (.ok (), s₂, b₂) →
      (suspends (x n).busy ((x n).arrive b₁) b₂ ↔ (x n).busy < s.period)) ∧
    (∀ due, (∃ n s' b', s.run b x (some due) n = ended (.stopped s') b') ↔
      ∃ n s' b', s.run b x none (n + 1) = going s' b' false ∧ (x n).busy < s.period ∧
        due ≤ b'.clock) ∧
    ((∀ due, ∃ n ending b', s.run b x (some due) n = ended ending b') ↔
      (∃ n cause b', s.run b x none n = ended (.failed cause) b') ∨
        ∀ m, ∃ n, m ≤ n ∧ (x n).busy < s.period) := by
  refine ⟨?_, fun due => s.stops_iff_heeds b x, ?_⟩
  · intro n s₁ b₁ s₂ b₂ hrun htick
    rcases s.run_none b x n with ⟨s', b', hrun', hperiod⟩ | ⟨cause, b', hrun'⟩
    · cases hrun.symm.trans hrun'
      rw [suspends_iff htick, hperiod]
    · exact nomatch hrun.symm.trans hrun'
  · simp only [exists_ended_iff]
    by_cases hfault : ∃ n cause b', s.run b x none n = ended (.failed cause) b'
    · simp [hfault]
    have hgoing : ∀ n, ∃ s' b', s.run b x none n = going s' b' false := by
      intro n
      rcases s.run_none b x n with ⟨s', b', hrun, _⟩ | hended
      · exact ⟨s', b', hrun⟩
      · exact absurd ⟨n, hended⟩ hfault
    simp only [hfault, false_or]
    exact ⟨s.sleeps_of_heeds b x hgoing, s.heeds_of_sleeps b x hgoing⟩

end Runs

/-! ## Runs that never end -/

/-- Nothing waits for a controller. -/
def Quiet (s : Scheduler .running) (b : Bench) : Prop := ∀ c ∈ s.rig.controllers, b.queue c.id = []

theorem Quiet.tick (h : Quiet s b) (busy : Nat) : ∃ s' b', s.tick busy b = (.ok (), s', b') := by
  obtain ⟨rig, b₁, hrig⟩ := s.rig.exists_tick fun c hc s => ⟨0, s, by rw [h c hc]; rfl⟩
  exact ⟨_, _, tick_eq_ok_iff.mpr ⟨rig, b₁, hrig, rfl⟩⟩

theorem quiet_of_tick (h : s.tick busy b = (.ok (), s', b')) : Quiet s' b' := by
  obtain ⟨rig, b₁, hrig, hsleep⟩ := tick_eq_ok_iff.mp h
  obtain ⟨hpolls, _⟩ := Rig.polls_of_tick hrig
  have hqueue := (sleep_keeps { s with rig } busy (b₁.advance busy)).1
  rw [hsleep] at hqueue
  have hsame : s'.rig = rig := by
    cases hsleep
    rfl
  intro c hc
  rw [hsame] at hc
  have hid : c.id ∈ s.rig.controllers.map (·.id) :=
    hpolls.ids ▸ List.mem_map_of_mem hc
  rw [hqueue]
  exact (hpolls.waiting_after c.id).trans (if_pos hid)

open Run (going ended)

/-- Without bytes that come in and without sleeps, a quiet rig is ticked for ever. -/
theorem run_going_of_quiet {x : Nat → Round} (hq : Quiet s b) (hquiet : ∀ n, (x n).arrivals = [])
    (hbusy : ∀ n, s.period ≤ (x n).busy) (due : Option Nat) (n : Nat) :
    ∃ s' b', s.run b x due n = going s' b' false ∧ Quiet s' b' ∧ s'.period = s.period := by
  induction n with
  | zero => exact ⟨s, b, rfl, hq, rfl⟩
  | succ n ih =>
      obtain ⟨s₁, b₁, hrun, hq₁, hperiod⟩ := ih
      have harrive : (x n).arrive b₁ = b₁ := by
        rw [Round.arrive, hquiet n]
        rfl
      obtain ⟨s₂, b₂, htick⟩ := hq₁.tick (x n).busy
      have hsuspends : suspends (x n).busy b₁ b₂ = false := by
        rw [← Bool.not_eq_true, suspends_iff htick, hperiod]
        exact Nat.not_lt.mpr (hbusy n)
      refine ⟨s₂, b₂, ?_, quiet_of_tick htick, (period_tick htick).trans hperiod⟩
      rw [run_succ, hrun, Run.round, harrive, htick]
      simp only [hsuspends, Bool.false_and]

theorem Run.rounds_succ (due : Option Nat) (x : Nat → Round) (run : Run) (n : Nat) :
    run.rounds due x (n + 1) = (run.round due (x 0)).rounds due (fun k => x (k + 1)) n := by
  induction n with
  | zero => rfl
  | succ n ih => exact congrArg (round due (x (n + 1))) ih

/-- Rounds whose ticks take no time and where nothing comes in.  The time `due` may have come before
the first of them. -/
def idle (due : Nat) (s : Scheduler .running) (b : Bench) (n : Nat) : Run :=
  (going s b (due ≤ b.clock)).rounds (some due) (fun _ => {}) n

theorem runUntil_eq_idle (deadline : Nat) (s : Scheduler .running) (b : Bench) :
    match s.runUntil deadline b with
    | (.endless _, _) => ∀ n, ∃ s' b', idle deadline s b n = going s' b' false
    | (ending, b') => ∃ n, idle deadline s b n = ended ending b' := by
  fun_induction runUntil deadline s b with
  | case1 s b hdue =>
      refine ⟨1, ?_⟩
      simp [idle, hdue, Run.rounds, Run.round]
  | case2 s b hdue cause s' after htick =>
      refine ⟨1, ?_⟩
      simp [idle, hdue, Run.rounds, Run.round, Round.arrive, htick]
  | case3 s b hdue s' after htick hclock ih =>
      have hnext (n : Nat) : idle deadline s b (n + 1) = idle deadline s' after n := by
        simp [idle, Run.rounds_succ, hdue, Run.round, Round.arrive, htick, suspends, hclock]
      generalize s'.runUntil deadline after = result at ih ⊢
      obtain ⟨ending, b'⟩ := result
      cases ending with
      | endless s₂ =>
          intro n
          cases n with
          | zero => exact ⟨s, b, by simp [idle, Run.rounds, hdue]⟩
          | succ n => exact hnext n ▸ ih n
      | stopped s₂ =>
          obtain ⟨n, hended⟩ := ih
          exact ⟨n + 1, (hnext n).trans hended⟩
      | failed cause =>
          obtain ⟨n, hended⟩ := ih
          exact ⟨n + 1, (hnext n).trans hended⟩
  | case4 s b hdue s' after htick hclock =>
      -- The clock stands still, so the period is zero and no tick will be suspended.
      have hperiod : s'.period = 0 := by
        have hlt := lt_clock_tick htick
        rw [period_tick htick]
        omega
      intro n
      cases n with
      | zero => exact ⟨s, b, by simp [idle, Run.rounds, hdue]⟩
      | succ n =>
          have hnext : idle deadline s b (n + 1) =
              s'.run after (fun _ => {}) (some deadline) n := by
            simp [idle, Run.rounds_succ, hdue, Run.round, Round.arrive, htick, suspends, hclock,
              run]
          obtain ⟨s₂, b₂, hrun, _⟩ := run_going_of_quiet (x := fun _ => {}) (quiet_of_tick htick)
            (fun _ => rfl) (fun _ => Nat.le_of_eq hperiod) (some deadline) n
          exact ⟨s₂, b₂, hnext.trans hrun⟩

/-- A scheduler of nothing with period zero is never stopped: its ticks are not suspended. -/
theorem request_never_noticed :
    let s : Scheduler .running := { rig := {}, period := 0 }
    (∃ s' b', s.tick 0 {} = (.ok (), s', b') ∧ suspends 0 {} b' = false) ∧
      (∃ s' b', s.runUntil 5000000 {} = (.endless s', b')) ∧
      ¬ ∃ n ending b', s.run {} (fun _ => {}) (some 5000000) n = ended ending b' := by
  intro s
  have hquiet : Quiet s {} := fun c hc => nomatch hc
  refine ⟨⟨_, _, rfl, rfl⟩, ?_, ?_⟩
  · unfold runUntil
    exact ⟨_, _, rfl⟩
  · rintro ⟨n, ending, b', hended⟩
    obtain ⟨s₁, b₁, hrun, _⟩ := run_going_of_quiet (x := fun _ => {}) hquiet (fun _ => rfl)
      (fun _ => Nat.le_refl _) (some 5000000) n
    exact nomatch hended.symm.trans hrun

end Scheduler

end Patchbay
