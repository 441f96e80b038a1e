import Patchbay.Program
import Patchbay.Proofs.Config.Spans
import Patchbay.Proofs.Scheduler.Stopping

/-! # The period of a program

Wherever a period comes from, it is a time that a duration can hold, and the program checks that it
is positive before it starts to tick.  A scheduler paces with whole nanoseconds, and a positive time
may round to none. -/

namespace Patchbay

open Config (Seconds)
open Duration (Lasts)

/-! ## Periods of documents -/

namespace RigConfig

theorem fits_defaultPeriod : Config.defaultPeriod.Fits := by
  have hread : Seconds.read "10ms" = .ok Config.defaultPeriod := by decide +kernel
  exact Seconds.fits_of_read hread

theorem fits_of_asPeriod {v : Toml.Value} {s : Seconds} (h : Config.asPeriod v = .ok s) :
    s.Fits := by
  unfold Config.asPeriod at h
  split at h
  next =>
    cases h
    exact fits_defaultPeriod
  next => exact Seconds.fits_of_decode h
  next =>
    split at h
    next => exact Seconds.fits_of_decode h
    next =>
      cases h
      exact fits_defaultPeriod
  next => cases h

variable {c c' : RigConfig}

theorem fits_of_addEntry {entry : String × Toml.Value} (hc : c.period.Fits)
    (h : c.addEntry entry = .ok c') : c'.period.Fits := by
  unfold addEntry at h
  split at h
  next =>
    obtain ⟨s, hs, h⟩ := Outcome.bind_eq_ok_iff.mp h
    cases h
    exact fits_of_asPeriod hs
  iterate 3
    next =>
      obtain ⟨_, _, h⟩ := Outcome.bind_eq_ok_iff.mp h
      cases h
      exact hc
  next =>
    cases h
    exact hc

theorem fits_of_read {text : String} (h : read text = .ok c) : c.period.Fits := by
  unfold read at h
  split at h
  next => cases h
  next =>
    refine Outcome.foldlM_preserves (I := fun c : RigConfig => c.period.Fits) fits_of_addEntry
      fits_defaultPeriod (Outcome.mapError_eq_ok_iff.mp h)

end RigConfig

/-! ## Periods of command lines -/

namespace CommandLine

/-- The period of the command line, if one was given, is a time that a duration can hold. -/
def Reading.Fits (r : Reading) : Prop := ∀ s ∈ r.period, Seconds.Fits s

namespace Reading

variable {r r' : Reading} {arg : String}

theorem Fits.fill {slot : Slot} {value : String} (hr : r.Fits) (h : r.fill slot value = .ok r') :
    r'.Fits := by
  unfold Reading.fill at h
  split at h
  next => cases h
  next =>
    split at h
    next =>
      split at h
      next => cases h
      next =>
        cases h
        exact hr
    next =>
      split at h
      next period hread =>
        cases h
        rintro s ⟨⟩
        exact Seconds.fits_of_read hread
      next => cases h
    next =>
      split at h
      next =>
        cases h
        exact hr
      next => cases h

theorem Fits.settle (hr : r.Fits) (h : r.settle = .ok r') : r'.Fits := by
  unfold Reading.settle at h
  split at h
  next =>
    cases h
    exact hr
  next => cases h
  next => exact Fits.fill (r := { r with pending := none }) hr h

theorem Fits.takePath (hr : r.Fits) (h : r.takePath arg = .ok r') : r'.Fits := by
  unfold Reading.takePath at h
  split at h
  next => cases h
  next =>
    obtain ⟨r₁, hsettle, h⟩ := Outcome.bind_eq_ok_iff.mp h
    have hr₁ : r₁.Fits := hr.settle hsettle
    cases h
    exact hr₁

theorem Fits.takeWord (hr : r.Fits) (h : r.takeWord arg = .ok r') : r'.Fits := by
  unfold Reading.takeWord at h
  split at h
  next =>
    cases h
    exact hr
  next => exact hr.takePath h

theorem Fits.beginSlot {slot : Slot} {value : Option String} (hr : r.Fits)
    (h : r.beginSlot slot value = .ok r') : r'.Fits := by
  obtain ⟨r₁, hsettle, h⟩ := Outcome.bind_eq_ok_iff.mp h
  have hr₁ : r₁.Fits := hr.settle hsettle
  dsimp only at h
  split at h
  next => exact Fits.settle (r := { r₁ with pending := some (slot, value) }) hr₁ h
  next =>
    cases h
    exact hr₁

end Reading

theorem fits_of_readFrom {r : Reading} {args : List String} {o : Options} (hr : r.Fits)
    (h : readFrom r args = .ok (.run o)) : ∀ s ∈ o.period, Seconds.Fits s := by
  induction args generalizing r with
  | nil =>
      obtain ⟨r₁, hsettle, h⟩ := Outcome.bind_eq_ok_iff.mp h
      cases h
      exact hr.settle hsettle
  | cons arg rest ih =>
      rw [readFrom] at h
      split at h
      next =>
        obtain ⟨r₁, htake, h⟩ := Outcome.bind_eq_ok_iff.mp h
        obtain ⟨r₂, hsettle, h⟩ := Outcome.bind_eq_ok_iff.mp h
        cases h
        exact (Outcome.foldlM_preserves Reading.Fits.takePath hr htake).settle hsettle
      next =>
        obtain ⟨r₁, hsettle, h⟩ := Outcome.bind_eq_ok_iff.mp h
        have hr₁ : r₁.Fits := hr.settle hsettle
        split at h
        · cases h
        · exact ih (r := { r₁ with simulate := true }) hr₁ h
      -- help and version are no runs
      iterate 4
        next =>
          obtain ⟨_, _, h⟩ := Outcome.bind_eq_ok_iff.mp h
          cases h
      iterate 2
        next =>
          obtain ⟨r₁, hbegin, h⟩ := Outcome.bind_eq_ok_iff.mp h
          exact ih (hr.beginSlot hbegin) h
      next => cases h
      next => split at h <;> cases h
      next => cases h
      next =>
        obtain ⟨r₁, htake, h⟩ := Outcome.bind_eq_ok_iff.mp h
        exact ih (hr.takeWord htake) h

theorem fits_of_read {args : List String} {o : Options} (h : read args = .ok (.run o)) :
    ∀ s ∈ o.period, Seconds.Fits s :=
  fits_of_readFrom (r := {}) (by rintro _ ⟨⟩) h

end CommandLine

/-! ## Starting a scheduler -/

namespace Program

variable {o : CommandLine.Options} {c : RigConfig} {path text : String} {b : Bench}

theorem exists_load (path : String) (b : Bench) (htext : RigConfig.read text = .ok c) :
    ∃ b', (RigConfig.load path (.ok text)).adaptExcept (Fault.config path) b = .ok c b' := by
  let b₁ := b.note .info s!"Loading rig from {path}"
  have hnote : (modify (·.note .info s!"Loading rig from {path}") :
      EStateM ConfigError Bench PUnit) b = .ok () b₁ := rfl
  refine ⟨b₁.addNote c.note, Outcome.run_adaptExcept_eq_ok_iff.mpr ?_⟩
  unfold RigConfig.load
  dsimp only
  rw [Outcome.run_bind_of_ok hnote, htext]
  rfl

/-- Whether the check of the period fails is a matter of the period only. -/
theorem exists_period_fault_iff (htext : RigConfig.read text = .ok c) :
    (∃ p b', setUp o path (.ok text) b = .error (.period p) b') ↔
      (o.period.getD c.period).value ≤ 0.0 := by
  obtain ⟨b', hload⟩ := exists_load path b htext
  unfold setUp
  rw [Outcome.run_bind_of_ok hload]
  dsimp only
  split
  next h => exact iff_of_true ⟨_, b', rfl⟩ h
  next h =>
    refine iff_of_false ?_ h
    rintro ⟨p, b'', hfault⟩
    split at hfault
    next => cases hfault
    next =>
      -- after the checks only the rig can fail
      have hrig : Outcome.Faults (· ≠ Fault.period p) ((Rig.ofConfig c).adaptExcept .rig) :=
        Outcome.faults_adaptExcept fun _ => Fault.noConfusion
      refine Outcome.faults_bind ?_ (fun _ => Outcome.faults_bind hrig fun rig =>
        Outcome.faults_bind ?_ fun s => ?_) _ _ _ hfault rfl <;> exact fun _ _ _ h => nomatch h

theorem period_of_setUp {s : Scheduler .running} {b' : Bench} (htext : RigConfig.read text = .ok c)
    (h : setUp o path (.ok text) b = .ok s b') : s.period = (o.period.getD c.period).span := by
  obtain ⟨b₁, hload⟩ := exists_load path b htext
  unfold setUp at h
  rw [Outcome.run_bind_of_ok hload] at h
  dsimp only at h
  split at h
  next => cases h
  next =>
    split at h
    next => cases h
    next =>
      obtain ⟨_, _, _, h⟩ := Outcome.run_bind_eq_ok_iff.mp h
      obtain ⟨rig, _, _, h⟩ := Outcome.run_bind_eq_ok_iff.mp h
      obtain ⟨s₁, _, hcreate, h⟩ := Outcome.run_bind_eq_ok_iff.mp h
      cases hcreate
      cases h
      rfl

theorem exists_setUp {rig : Rig} (path : String) (b : Bench) (htext : RigConfig.read text = .ok c)
    (hsimulate : o.simulate) (hpositive : ¬ (o.period.getD c.period).value ≤ 0.0)
    (hrig : ∀ b, ∃ b', Rig.ofConfig c b = .ok rig b') :
    ∃ s b', setUp o path (.ok text) b = .ok s b' ∧ s.rig = rig := by
  obtain ⟨b₁, hload⟩ := exists_load path b htext
  obtain ⟨b₂, hrig⟩ := hrig b₁.use
  have hadapt := Outcome.run_adaptExcept_eq_ok_iff (f := Fault.rig).mpr hrig
  have huse : (modify Bench.use : EStateM Fault Bench PUnit) b₁ = .ok () b₁.use := rfl
  unfold setUp
  rw [Outcome.run_bind_of_ok hload]
  dsimp only
  split
  next h => exact absurd h hpositive
  next =>
    rw [hsimulate]
    exact ⟨_, _, (Outcome.run_bind_of_ok huse).trans ((Outcome.run_bind_of_ok hadapt).trans rfl),
      rfl⟩

/-- A program without devices, told its period by the command line. -/
theorem exists_setUp_period {args : List String} {period : Seconds}
    (hargs : CommandLine.read args = .ok (.run { period := some period, simulate := true }))
    (hpositive : ¬ period.value ≤ 0.0) :
    ∃ o c s b, CommandLine.read args = .ok (.run o) ∧ RigConfig.read "" = .ok c ∧
      o.period.getD c.period = period ∧ setUp o "rig.toml" (.ok "") {} = .ok s b ∧
      s.rig = {} := by
  have htext : RigConfig.read "" = .ok {} := by rfl
  obtain ⟨s, b, hs, hrig⟩ := exists_setUp "rig.toml" {}
    (o := { period := some period, simulate := true }) htext rfl hpositive fun b => ⟨_, rfl⟩
  exact ⟨_, _, s, b, hargs, htext, rfl, hs, hrig⟩

/-- A period that passes the check is never cut off at the longest span, but it is paced only if it
is more than half a nanosecond: a shorter one is positive and its span is zero, so a tick that takes
no time does not sleep. -/
theorem accepted_period_paces_iff {args : List String}
    (hargs : CommandLine.read args = .ok (.run o)) (htext : RigConfig.read text = .ok c)
    (hchecked : ∀ p b', setUp o path (.ok text) b ≠ .error (.period p) b') :
    ∃ q, Lasts (o.period.getD c.period).value q ∧ 0 < q ∧
      (o.period.getD c.period).span < Duration.longest ∧
      (1 ≤ (o.period.getD c.period).span ↔ 1 / 2 < q * Duration.second) ∧
      ∀ s b', setUp o path (.ok text) b = .ok s b' →
        s.period = (o.period.getD c.period).span ∧
        ∀ (t t' : Scheduler .running) (before after : Bench), t.period = s.period →
          t.tick 0 before = (.ok (), t', after) →
          (Scheduler.suspends 0 before after ↔ 1 / 2 < q * Duration.second) := by
  have hfits : (o.period.getD c.period).Fits := by
    cases hperiod : o.period with
    | none => exact RigConfig.fits_of_read htext
    | some s => exact CommandLine.fits_of_read hargs s hperiod
  obtain ⟨q, hq⟩ := hfits
  have hpositive : ¬ (o.period.getD c.period).value ≤ 0.0 := by
    intro hle
    obtain ⟨p, b', hfault⟩ := (exists_period_fault_iff htext).mpr hle
    exact hchecked p b' hfault
  rw [hq.exact.le_iff Single.exact_zero, not_le] at hpositive
  have hspan := Seconds.one_le_span_iff hq
  refine ⟨q, hq, hpositive, Seconds.span_lt_longest hq, hspan, fun s b' hs => ?_⟩
  have hperiod := period_of_setUp htext hs
  refine ⟨hperiod, fun t t' before after ht htick => ?_⟩
  rw [Scheduler.suspends_iff htick, ht, hperiod, ← hspan]
  exact Nat.lt_iff_add_one_le

theorem accepted_period_paces_iff_ten_milliseconds :
    ∃ (o : CommandLine.Options) (c : RigConfig) (s : Scheduler .running) (b : Bench),
      CommandLine.read ["--simulate", "--period", "10ms"] = .ok (.run o) ∧
      RigConfig.read "" = .ok c ∧ setUp o "rig.toml" (.ok "") {} = .ok s b ∧
      s.period = 10000000 ∧
      ∃ q, Lasts (o.period.getD c.period).value q ∧ 1 / 2 < q * Duration.second := by
  obtain ⟨period, hline, hpositive, hspan⟩ : ∃ period : Seconds,
      CommandLine.read ["--simulate", "--period", "10ms"] =
        .ok (.run { period := some period, simulate := true }) ∧
      ¬ period.value ≤ 0.0 ∧ period.span = 10000000 :=
    ⟨⟨10.0 / 1e3⟩, by decide +kernel, by decide +kernel, by decide +kernel⟩
  obtain ⟨o, c, s, b, hargs, htext, rfl, hs, -⟩ := exists_setUp_period hline hpositive
  have hchecked (p b') : setUp o "rig.toml" (.ok "") {} ≠ .error (.period p) b' :=
    fun hfault => hpositive ((exists_period_fault_iff htext).mp ⟨p, b', hfault⟩)
  obtain ⟨q, hq, -, -, hlasts, hperiod⟩ := accepted_period_paces_iff hargs htext hchecked
  refine ⟨o, c, s, b, hargs, htext, hs, (hperiod s b hs).1.trans hspan, q, hq, hlasts.mp ?_⟩
  rw [hspan]
  decide

theorem tiny_period_never_sleeps :
    ∃ (o : CommandLine.Options) (c : RigConfig) (s : Scheduler .running) (b : Bench),
      CommandLine.read ["--simulate", "--period", "0.1ns"] = .ok (.run o) ∧
      RigConfig.read "" = .ok c ∧ setUp o "rig.toml" (.ok "") {} = .ok s b ∧ s.period = 0 ∧
      ∃ s' b', s.tick 0 b = (.ok (), s', b') ∧ Scheduler.suspends 0 b b' = false := by
  obtain ⟨period, hline, hpositive, hspan⟩ : ∃ period : Seconds,
      CommandLine.read ["--simulate", "--period", "0.1ns"] =
        .ok (.run { period := some period, simulate := true }) ∧
      ¬ period.value ≤ 0.0 ∧ period.span = 0 :=
    ⟨⟨0.1 / 1e9⟩, by decide +kernel, by decide +kernel, by decide +kernel⟩
  obtain ⟨o, c, s, b, hargs, htext, rfl, hs, hrig⟩ := exists_setUp_period hline hpositive
  have hperiod : s.period = 0 := (period_of_setUp htext hs).trans hspan
  obtain ⟨s', b', htick⟩ : ∃ s' b', s.tick 0 b = (.ok (), s', b') := by
    unfold Scheduler.tick
    rw [hrig]
    exact ⟨_, _, rfl⟩
  refine ⟨o, c, s, b, hargs, htext, hs, hperiod, s', b', htick, ?_⟩
  rw [Bool.eq_false_iff, ne_eq, Scheduler.suspends_iff htick, hperiod]
  exact Nat.lt_irrefl 0

end Program

end Patchbay
