import Patchbay.Duration
import Patchbay.Rig.Basic
/-!
# Schedulers

A scheduler ticks a rig once per period.  What a tick leaves of the period is slept; a tick that
takes longer is not made up for.  A scheduler is configured, then running, then stopped.
-/

namespace Patchbay

/-- Counts and sums over ticks; times are in nanoseconds. -/
structure TickStats where
  ticks : Nat := 0
  /-- The number of ticks that left nothing to sleep. -/
  overruns : Nat := 0
  busy : Nat := 0
  slept : Nat := 0
  longest : Nat := 0
deriving DecidableEq, Repr

/-- Counts one more tick. -/
def TickStats.record (s : TickStats) (busy slept : Nat) : TickStats where
  ticks := s.ticks + 1
  overruns := if slept = 0 then s.overruns + 1 else s.overruns
  busy := s.busy + busy
  slept := s.slept + slept
  longest := max s.longest busy

inductive Stage
  | configured
  | running
  | stopped
deriving DecidableEq, Repr

structure Scheduler (stage : Stage) where
  rig : Rig
  period : Nat
  stats : TickStats := {}

namespace Scheduler

export Bench (longestSleep)

def create (rig : Rig) (period : Nat) (b : Bench) : Scheduler .configured × Bench :=
  ({ rig, period }, b.note .info s!"Scheduler configured with a {Duration.text period} period")

def start (s : Scheduler .configured) (b : Bench) : Scheduler .running × Bench :=
  (⟨s.rig, s.period, s.stats⟩, b.note .info "Scheduler running")

def stop (s : Scheduler .running) : Scheduler .stopped := ⟨s.rig, s.period, s.stats⟩

/-- Takes the rig out. -/
def intoRig (s : Scheduler .stopped) (b : Bench) : Rig × Bench :=
  let longest := Duration.text s.stats.longest
  (s.rig, b.note .info (s!"Scheduler stopped: {s.stats.ticks} ticks, {s.stats.overruns} overruns, "
    ++ s!"longest tick {longest}"))

/-- Sleeps for what a tick that was `busy` for some time leaves of the period.  Just that is counted
as slept, however long the sleep lasts. -/
def sleep (s : Scheduler .running) (busy : Nat) (b : Bench) : Scheduler .running × Bench :=
  let slept := s.period - busy
  let b :=
    if slept = 0 then
      b.note .debug s!"Tick overran: {Duration.text busy} > {Duration.text s.period}"
    else b.sleep slept
  ({ s with stats := s.stats.record busy slept }, b)

/-- One tick that takes the time `busy`, and the sleep after it.  A tick that fails is not
counted. -/
def tick (s : Scheduler .running) (busy : Nat) (b : Bench) :
    Except RigError Unit × Scheduler .running × Bench :=
  match s.rig.tick b with
  | (.error cause, rig, b) => (.error cause, { s with rig }, b)
  | (.ok (), rig, b) => (.ok (), { s with rig }.sleep busy (b.advance busy))

/-- Gives up after a tick that failed. -/
def giveUp (s : Scheduler .running) (cause : RigError) (b : Bench) : Bench :=
  s.rig.release (b.note .error s!"Tick {s.stats.ticks + 1} failed: {cause.message}")

/-- How a run ends. -/
inductive Ending
  | stopped (s : Scheduler .stopped)
  | failed (cause : RigError)
  /-- Nothing else gets a turn between ticks that leave nothing to sleep, so the run never ends. -/
  | endless (s : Scheduler .running)

/-- Ticks, each in no time, until the clock has reached the time at which shutdown is asked for.
The time is looked at between ticks.  The rig is lost with a tick that fails. -/
def runUntil (deadline : Nat) (s : Scheduler .running) (b : Bench) : Ending × Bench :=
  if deadline ≤ b.clock then
    (.stopped s.stop, b.note .info s!"Shutdown requested after {s.stats.ticks} ticks")
  else
    match s.tick 0 b with
    | (.error cause, s, after) => (.failed cause, s.giveUp cause after)
    | (.ok (), s, after) =>
      if b.clock < after.clock then runUntil deadline s after else (.endless s, after)
termination_by deadline - b.clock

end Scheduler

end Patchbay
