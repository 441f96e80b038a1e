import Mathlib.Algebra.GroupWithZero.Nat
import Mathlib.Algebra.Order.Group.Nat
import Patchbay.Proofs.Scheduler.Stopping

/-! # Pacing

Ticks one after another: each takes the period, or the time that it is busy if that is longer, and
nothing is made up for.  The counts and sums of a scheduler are those over its ticks. -/

namespace Patchbay

/-! ## Sums over ticks -/

/-- What times that ticks of a period are busy add to the counts and sums. -/
theorem TickStats.foldl_record (period : Nat) (times : List Nat) (stats : TickStats) :
    times.foldl (fun stats busy => stats.record busy (period - busy)) stats =
      { ticks := stats.ticks + times.length
        overruns := stats.overruns + times.countP (period ≤ ·)
        busy := stats.busy + times.sum
        slept := stats.slept + (times.map (period - ·)).sum
        longest := times.foldl max stats.longest } := by
  induction times generalizing stats with
  | nil => rfl
  | cons busy rest ih =>
      rw [List.foldl_cons, ih, TickStats.mk.injEq]
      have hoverrun : period - busy = 0 ↔ period ≤ busy := Nat.sub_eq_zero_iff_le
      refine ⟨?_, ?_, ?_, ?_, rfl⟩
      · simp only [record, List.length_cons]
        omega
      · simp only [record, hoverrun, List.countP_cons, decide_eq_true_eq]
        split <;> omega
      · simp only [record, List.sum_cons]
        omega
      · simp only [record, List.map_cons, List.sum_cons]
        omega

namespace Scheduler

/-! ## Ticks -/

/-- Ticks one after another, up to the first that fails.  What comes in before a tick takes no
time. -/
def tickAll (s : Scheduler .running) (b : Bench) :
    List Round → Except RigError Unit × Scheduler .running × Bench
  | [] => (.ok (), s, b)
  | x :: rest =>
    match s.tick x.busy (x.arrive b) with
    | (.error cause, s, b) => (.error cause, s, b)
    | (.ok (), s, b) => s.tickAll b rest

variable {s s' : Scheduler .running} {b b' : Bench} {x : Round} {rounds : List Round}

theorem tickAll_cons_eq_ok_iff : s.tickAll b (x :: rounds) = (.ok (), s', b') ↔
    ∃ s₁ b₁, s.tick x.busy (x.arrive b) = (.ok (), s₁, b₁) ∧
      s₁.tickAll b₁ rounds = (.ok (), s', b') := by
  rw [tickAll]
  generalize s.tick x.busy (x.arrive b) = ticked
  obtain ⟨result, s₁, b₁⟩ := ticked
  cases result with
  | error cause => simp
  | ok _ => simp

/-- What a tick adds to the counts and sums. -/
theorem stats_tick {busy : Nat} (h : s.tick busy b = (.ok (), s', b')) :
    s'.stats = s.stats.record busy (s.period - busy) := by
  obtain ⟨rig, b₁, _, hsleep⟩ := tick_eq_ok_iff.mp h
  cases hsleep
  rfl

theorem period_tickAll (h : s.tickAll b rounds = (.ok (), s', b')) : s'.period = s.period := by
  induction rounds generalizing s b with
  | nil =>
      cases h
      rfl
  | cons x rest ih =>
      obtain ⟨s₁, b₁, htick, hrest⟩ := tickAll_cons_eq_ok_iff.mp h
      exact (ih hrest).trans (period_tick htick)

theorem stats_tickAll (h : s.tickAll b rounds = (.ok (), s', b')) :
    s'.stats = (rounds.map Round.busy).foldl
      (fun stats busy => stats.record busy (s.period - busy)) s.stats := by
  induction rounds generalizing s b with
  | nil =>
      cases h
      rfl
  | cons x rest ih =>
      obtain ⟨s₁, b₁, htick, hrest⟩ := tickAll_cons_eq_ok_iff.mp h
      rw [ih hrest, stats_tick htick, period_tick htick, List.map_cons, List.foldl_cons]

/-- When sleeps last as long as they are to, a tick takes the period, or the time that it is busy if
that is longer. -/
theorem clock_tick_of_exact {busy : Nat} (hexact : ∀ now span, b.sleeps.lasts now span = span)
    (h : s.tick busy b = (.ok (), s', b')) : b'.clock = b.clock + max s.period busy := by
  rw [clock_tick h, hexact]
  split <;> omega

theorem clock_tickAll_of_exact (hexact : ∀ now span, b.sleeps.lasts now span = span)
    (h : s.tickAll b rounds = (.ok (), s', b')) :
    b'.clock = b.clock + ((rounds.map Round.busy).map (max s.period)).sum := by
  induction rounds generalizing s b with
  | nil =>
      cases h
      rfl
  | cons x rest ih =>
      obtain ⟨s₁, b₁, htick, hrest⟩ := tickAll_cons_eq_ok_iff.mp h
      obtain ⟨hclock, hsleeps⟩ := Bench.time_eq_iff.mp (x.time_arrive b)
      rw [← hsleeps] at hexact
      have hfirst := clock_tick_of_exact hexact htick
      rw [← sleeps_tick htick] at hexact
      rw [ih hexact hrest, hfirst, hclock, period_tick htick]
      simp only [List.map_cons, List.sum_cons, Nat.add_assoc]

/-- After ticks without a fault, the counts and sums of a new scheduler are those of the times that
the ticks were busy and of what they left of the period.  When sleeps last as long as they are to,
each tick took the longer of the period and its time, so that nothing of an overrun is made up
for. -/
theorem ticks_add_up (rig : Rig) (period : Nat) (b₀ b₁ b b' : Bench) (rounds : List Round)
    (s : Scheduler .running)
    (h : ((create rig period b₀).1.start b₁).1.tickAll b rounds = (.ok (), s, b')) :
    let times := rounds.map Round.busy
    s.period = period ∧
    s.stats = {
      ticks := times.length
      overruns := times.countP (period ≤ ·)
      busy := times.sum
      slept := (times.map (period - ·)).sum
      longest := times.max?.getD 0 } ∧
    ((∀ now span, b.sleeps.lasts now span = span) →
      b'.clock = b.clock + (times.map (max period)).sum) := by
  intro times
  refine ⟨period_tickAll h, ?_, fun hexact => clock_tickAll_of_exact hexact h⟩
  have hstats : s.stats = times.foldl (fun stats busy => stats.record busy (period - busy)) {} :=
    stats_tickAll h
  rw [hstats, TickStats.foldl_record, List.foldl_max]
  simp only [Nat.zero_add, Nat.zero_max]

/-- A short tick, one that takes just the period, one that overruns and one that takes no time. -/
theorem ticks_add_up_overrun_between :
    let rounds : List Round := [⟨[], 3⟩, ⟨[], 10⟩, ⟨[], 25⟩, ⟨[], 0⟩]
    (∀ now span, ({} : Bench).sleeps.lasts now span = span) ∧
    ∃ s b', ((create {} 10 {}).1.start {}).1.tickAll {} rounds = (.ok (), s, b') ∧
      s.stats = { ticks := 4, overruns := 2, busy := 38, slept := 17, longest := 25 } ∧
      b'.clock = 55 := by
  intro rounds
  have hexact : ∀ now span, ({} : Bench).sleeps.lasts now span = span := fun _ _ => rfl
  obtain ⟨s, b', h⟩ : ∃ s b',
      ((create {} 10 {}).1.start {}).1.tickAll {} rounds = (.ok (), s, b') := ⟨_, _, rfl⟩
  obtain ⟨_, hstats, hclock⟩ := ticks_add_up {} 10 {} {} {} b' rounds s h
  exact ⟨hexact, s, b', h, hstats, hclock hexact⟩

end Scheduler

end Patchbay
