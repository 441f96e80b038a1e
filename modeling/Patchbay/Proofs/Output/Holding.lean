import Mathlib.Data.List.Induction
import Patchbay.Proofs.Output.Refreshing

/-! # Outputs that hold a value

A solid light and a constant motor drive their pins only when a parameter was written another value
since the last step.  Nothing is lost by that: their lines are driven as if every step drove them
for the values that were written last. -/

namespace Patchbay

open Single (Same)

namespace Output

variable {o : Output}

/-! ## Runs -/

/-- What happens to an output. -/
inductive Move
  | write (t : Target) (v : Float32)
  | step
deriving DecidableEq

/-- An output and its bench. -/
structure Run where
  output : Output
  bench : Bench

namespace Run

def next (r : Run) : Move → Run
  | .write t v => { r with output := r.output.write t v }
  | .step =>
    let (output, bench) := r.output.step r.bench
    { output, bench }

def play (r : Run) (moves : List Move) : Run := moves.foldl next r

end Run

/-- An output that every step drives, for the latest value written to each parameter. -/
structure Eager where
  output : Output
  latest : Target → Float32
  bench : Bench

namespace Eager

def next (e : Eager) : Move → Eager
  | .write t v => { e with latest := fun p => if p ∈ t.parameters then v else e.latest p }
  | .step =>
    let (output, bench) := e.output.drive e.latest e.bench
    { e with output, bench }

def play (e : Eager) (moves : List Move) : Eager := moves.foldl next e

end Eager

/-- A write of another value than some parameter holds. -/
def Move.Changes (o : Output) : Move → Prop
  | .write t v => o.Differs t v
  | .step => False

namespace Run

variable {r : Run} {moves : List Move} {move : Move}

/-- Since the last step, there was a write of another value than the parameter held then. -/
def ChangedSinceStep (r : Run) (moves : List Move) : Prop :=
  ∃ before move after, moves = before ++ move :: after ∧ .step ∉ after ∧
    move.Changes (r.play before).output

/-- The next step drives the pins: it is the first one, or there was a change since the last. -/
def Due (r : Run) (moves : List Move) : Prop := .step ∉ moves ∨ r.ChangedSinceStep moves

theorem play_append_singleton : r.play (moves ++ [move]) = (r.play moves).next move := by
  simp [play]

theorem due_append : r.Due (moves ++ [move]) ↔
    move ≠ .step ∧ (r.Due moves ∨ move.Changes (r.play moves).output) := by
  unfold Due ChangedSinceStep
  rw [exists_since_append_iff, List.mem_append, List.mem_singleton]
  cases move with
  | step => simp [Move.Changes]
  | write t v =>
      simp only [reduceCtorEq, or_false, ne_eq, not_false_eq_true, true_and]
      rw [or_assoc, or_comm (a := (Move.write t v).Changes _)]

end Run

/-! ## What lines show -/

/-- The lines of the pins are driven for their values. -/
def Shows (pins : List OutputPin) (levels : List Float32) (b : Bench) : Prop :=
  ∀ p v, (p, v) ∈ pins.zip levels → (b.line p.number).last = some (p.resolve v).2

theorem Like.shows_drive {o' : Output} {values : Target → Float32} {b : Bench} (h : o.Like o')
    (hnodup : (o.pins.map OutputPin.number).Nodup) :
    Shows o.pins (o.levels b.power values) (o'.drive values b).2 := by
  intro p v hp
  rw [h.line_drive hnodup hp, Bench.line_write, if_pos rfl]

/-- Lines that are driven for the same values are driven alike. -/
theorem Shows.alike {pins : List OutputPin} {levels levels' : List Float32} {b b' : Bench}
    (h : Shows pins levels b) (h' : Shows pins levels' b')
    (hsame : List.Forall₂ Same levels levels') (hcount : pins.length ≤ levels.length) {n : UInt8}
    (hn : n ∈ pins.map OutputPin.number) :
    Option.Rel Drive.Alike (b.line n).last (b'.line n).last := by
  have hzip {levels : List Float32} {i : ℕ} (hi : i < pins.length) (hi' : i < levels.length) :
      (pins[i], levels[i]) ∈ pins.zip levels := by
    rw [← List.getElem_zip (h := by rw [List.length_zip]; omega)]
    exact List.getElem_mem _
  obtain ⟨p, hp, rfl⟩ := List.mem_map.mp hn
  obtain ⟨i, hi, rfl⟩ := List.getElem_of_mem hp
  have hi' : i < levels.length := hi.trans_le hcount
  have hi'' : i < levels'.length := hsame.length_eq ▸ hi'
  rw [h _ _ (hzip hi hi'), h' _ _ (hzip hi hi'')]
  exact .some (OutputPin.resolve_alike _ (hsame.get hi' hi''))

/-! ## Holding and driving -/

/-- An output whose pins are all its own, each with a value. -/
structure Fit (o : Output) : Prop where
  holds : o.Holds
  nodup : (o.pins.map OutputPin.number).Nodup
  count : ∀ power values, o.pins.length ≤ (o.levels power values).length

/-- How an output that has been through a run stands to one that every step drives. -/
structure Agrees (o : Output) (b : Bench) (moves : List Move) (r : Run) (e : Eager) : Prop where
  like : o.Like r.output
  like' : o.Like e.output
  power : r.bench.power = b.power
  power' : e.bench.power = b.power
  latest : ∀ t p, r.output.param? t = some p → Same p.value (e.latest t)
  dirty : r.output.Dirty ↔ Run.Due ⟨o, b⟩ moves
  shows_of_clean : ¬ r.output.Dirty → Shows o.pins (o.levels b.power r.output.values) r.bench
  alike : ∀ n ∈ o.pins.map OutputPin.number,
    Option.Rel Drive.Alike (r.bench.line n).last (e.bench.line n).last

namespace Agrees

variable {b : Bench} {moves : List Move} {r : Run} {e : Eager}

theorem write (h : Agrees o b moves r e) (hr : Run.play ⟨o, b⟩ moves = r) (t : Target)
    (v : Float32) :
    Agrees o b (moves ++ [.write t v]) (r.next (.write t v)) (e.next (.write t v)) where
  like := h.like.write t v
  like' := h.like'
  power := h.power
  power' := h.power'
  latest u p' hp' := by
    change (r.output.write t v).param? u = some p' at hp'
    rw [param?_write h.like.holds, Option.map_eq_some_iff] at hp'
    obtain ⟨p, hp, rfl⟩ := hp'
    change Same _ (if u ∈ t.parameters then v else e.latest u)
    split
    · exact Param.same_value_set
    · exact h.latest u p hp
  dirty := by
    rw [Run.due_append, hr, ← h.dirty]
    change (r.output.write t v).Dirty ↔ _
    rw [dirty_write_iff h.like.holds]
    exact (and_iff_right nofun).symm
  shows_of_clean hd := by
    have hbefore : ¬ r.output.Dirty := fun hdirty =>
      hd ((dirty_write_iff h.like.holds).mpr (.inl hdirty))
    change Shows o.pins (o.levels b.power (r.output.write t v).values) r.bench
    rw [values_write_of_not_dirty h.like.holds hd]
    exact h.shows_of_clean hbefore
  alike := h.alike

theorem shows_step (h : Agrees o b moves r e) (hfit : o.Fit) :
    Shows o.pins (o.levels b.power r.output.values) (r.next .step).bench := by
  change Shows o.pins _ (r.output.step r.bench).2
  by_cases hd : r.output.Dirty
  · rw [(step_of_dirty h.like.holds hd r.bench).1, ← h.power]
    exact h.like.shows_drive hfit.nodup
  · rw [step_of_not_dirty h.like.holds hd]
    exact h.shows_of_clean hd

theorem step (h : Agrees o b moves r e) (hfit : o.Fit)
    (hpower : ∀ y, 0.0 < y → b.power 0.0 y = 0.0) :
    Agrees o b (moves ++ [.step]) (r.next .step) (e.next .step) where
  like := h.like.step r.bench
  like' := h.like'.drive e.latest e.bench
  power := (power_step h.like.holds r.bench).trans h.power
  power' := (power_drive h.like'.holds e.latest e.bench).trans h.power'
  latest t p' hp' := by
    change (r.output.step r.bench).1.param? t = some p' at hp'
    rw [param?_step h.like.holds, Option.map_eq_some_iff] at hp'
    obtain ⟨p, hp, rfl⟩ := hp'
    exact h.latest t p hp
  dirty := by
    rw [Run.due_append]
    exact iff_of_false (not_dirty_step h.like.holds r.bench) fun hdue => hdue.1 rfl
  shows_of_clean _ := by
    change Shows o.pins (o.levels b.power (r.output.step r.bench).1.values) _
    rw [values_step h.like.holds]
    exact h.shows_step hfit
  alike n hn := by
    have hsame : List.Forall₂ Same (o.levels b.power r.output.values)
        (o.levels b.power e.latest) := by
      rw [← h.like.levels]
      exact levels_same h.like.holds hpower fun t p hp => values_eq hp ▸ h.latest t p hp
    have hshows : Shows o.pins (o.levels b.power e.latest) (e.next .step).bench := by
      rw [← h.power']
      exact h.like'.shows_drive hfit.nodup
    exact (h.shows_step hfit).alike hshows hsame (hfit.count _ _) hn

theorem play (hfit : o.Fit) (hdirty : o.Dirty) (hpower : ∀ y, 0.0 < y → b.power 0.0 y = 0.0)
    (moves : List Move) :
    Agrees o b moves (Run.play ⟨o, b⟩ moves) (Eager.play ⟨o, o.values, b⟩ moves) := by
  induction moves using List.reverseRecOn with
  | nil =>
      exact {
        like := .refl hfit.holds
        like' := .refl hfit.holds
        power := rfl
        power' := rfl
        latest := fun t p hp => .of_eq (values_eq hp).symm
        dirty := iff_of_true hdirty (.inl List.not_mem_nil)
        shows_of_clean := fun hclean => absurd hdirty hclean
        alike := fun n _ => by
          change Option.Rel Drive.Alike (b.line n).last (b.line n).last
          cases (b.line n).last with
          | none => exact .none
          | some d => exact .some (.refl d) }
  | append_singleton moves move ih =>
      rw [Run.play_append_singleton]
      have heager : Eager.play ⟨o, o.values, b⟩ (moves ++ [move]) =
          (Eager.play ⟨o, o.values, b⟩ moves).next move := by
        simp [Eager.play]
      rw [heager]
      cases move with
      | write t v => exact ih.write rfl t v
      | step => exact ih.step hfit hpower

theorem step_of_due (h : Agrees o b moves r e) (hfit : o.Fit) (hdue : Run.Due ⟨o, b⟩ moves)
    {n : UInt8} (hn : n ∈ o.pins.map OutputPin.number) :
    ((r.next .step).bench.line n).writes = (r.bench.line n).writes + 1 := by
  obtain ⟨p, hp, rfl⟩ := List.mem_map.mp hn
  obtain ⟨v, hv⟩ := OutputPin.exists_mem_zip (hfit.count r.bench.power r.output.values) hp
  change ((r.output.step r.bench).2.line p.number).writes = _
  rw [(step_of_dirty h.like.holds (h.dirty.mpr hdue) r.bench).1, h.like.line_drive hfit.nodup hv,
    Bench.line_write, if_pos rfl]

theorem step_of_not_due (h : Agrees o b moves r e) (hdue : ¬ Run.Due ⟨o, b⟩ moves) :
    r.next .step = r := by
  change (⟨(r.output.step r.bench).1, (r.output.step r.bench).2⟩ : Run) = r
  rw [step_of_not_dirty h.like.holds (mt h.dirty.mp hdue)]

end Agrees

/-! ## New outputs -/

/-- A new solid light or constant motor. -/
inductive Made : Output → Prop
  | light {l : Light} {color : Color} {brightness : Float32} :
      l.Opened → Made (solid (.make l color brightness))
  | motor {m : Motor} {value : Float32} : m.Opened → Made (constant (.make m value))

theorem Made.fit (h : o.Made) : o.Fit := by
  cases h with
  | @light l color brightness hl =>
      obtain ⟨⟨drive, hwired⟩, hlength⟩ := hl.wired
      exact ⟨trivial, hwired.nodup, fun _ _ => hlength.trans_le (l.name.pinCount_le _)⟩
  | @motor m value hm =>
      obtain ⟨hwired, hlength⟩ := hm.wired
      refine ⟨trivial, hwired.nodup, fun power values => ?_⟩
      exact (hlength.trans (m.name.length_pinValues _ _).symm).le

theorem Made.dirty (h : o.Made) : o.Dirty := by
  cases h with
  | light => exact ⟨.brightness, _, rfl, rfl⟩
  | motor => exact ⟨.value, _, rfl, rfl⟩

theorem Made.numbers_eq (h : o.Made) : o.numbers = o.pins.map OutputPin.number := by
  cases h <;> rfl

theorem Made.numbers_ne_nil (h : o.Made) : o.numbers ≠ [] := by
  rw [h.numbers_eq, ne_eq, List.map_eq_nil_iff, ← List.length_eq_zero_iff]
  cases h with
  | @light l color brightness hl =>
      change l.pins.length ≠ 0
      rw [hl.wired.2]
      cases l.name <;> decide
  | @motor m value hm =>
      change m.pins.length ≠ 0
      rw [hm.wired.2]
      cases m.name <;> decide

/-- After every run of writes and steps, a solid light or a constant motor has driven its lines as
if every step had driven them for the latest values that were written.  The next step drives each
line once if it is the first step or a write since the last one changed a value, or else none. -/
theorem holding_loses_nothing (hmade : o.Made) (b : Bench)
    (hpower : ∀ y, 0.0 < y → b.power 0.0 y = 0.0) (moves : List Move) :
    let r := Run.play ⟨o, b⟩ moves
    let e := Eager.play ⟨o, o.values, b⟩ moves
    (∀ n ∈ o.numbers, Option.Rel Drive.Alike (r.bench.line n).last (e.bench.line n).last) ∧
      (Run.Due ⟨o, b⟩ moves → ∀ n ∈ o.numbers,
        ((r.next .step).bench.line n).writes = (r.bench.line n).writes + 1) ∧
      (¬ Run.Due ⟨o, b⟩ moves → (r.next .step).bench = r.bench) ∧ o.numbers ≠ [] := by
  intro r e
  have h : Agrees o b moves r e := .play hmade.fit hmade.dirty hpower moves
  refine ⟨?_, fun hdue => ?_, fun hdue => congrArg Run.bench (h.step_of_not_due hdue),
    hmade.numbers_ne_nil⟩
  · rw [hmade.numbers_eq]
    exact h.alike
  · rw [hmade.numbers_eq]
    exact fun n => h.step_of_due hmade.fit hdue

/-- A light with a red channel on pin 3 and a green one on pin 4. -/
def redGreen : Light where
  name := .dualColorLed
  pins := [{ wiring := { number := 3 }, mode := .pwm }, { wiring := { number := 4 }, mode := .pwm }]

/-- The light shines red.  Powers are their bases, as those of zero and one are. -/
def redLight : Run where
  output := solid (.make redGreen .red 1.0)
  bench := { power := fun x _ => x }

/-- The light is turned off by minus zero.  Later green is written zero. -/
def darkening : List Move := [.step, .write .color (-0.0), .step, .write (.channel .g) 0.0]

/-- Green holds zero when it is written minus zero, so its line has another zero than if every step
drove it.  The last write changes nothing, and so the next step does nothing. -/
theorem holding_loses_nothing_dark_light :
    let r := redLight.play darkening
    let e := Eager.play ⟨redLight.output, redLight.output.values, redLight.bench⟩ darkening
    redLight.output.Made ∧ (∀ y, 0.0 < y → redLight.bench.power 0.0 y = 0.0) ∧
      Option.Rel Drive.Alike (r.bench.line 4).last (e.bench.line 4).last ∧
      (r.bench.line 4).last = some (.duty 0.0 1000) ∧
      (e.bench.line 4).last = some (.duty (-0.0) 1000) ∧
      ((redLight.next .step).bench.line 4).writes = (redLight.bench.line 4).writes + 1 ∧
      (r.next .step).bench = r.bench := by
  have hpower : ∀ y, 0.0 < y → redLight.bench.power 0.0 y = 0.0 := fun _ _ => rfl
  obtain ⟨b', hopened⟩ : ∃ b', Light.attach .dualColorLed .pwm [3, 4] {} = .ok redGreen b' :=
    ⟨_, rfl⟩
  have hmade : redLight.output.Made := .light (.attach hopened)
  obtain ⟨-, hdue, -⟩ := holding_loses_nothing hmade redLight.bench hpower []
  obtain ⟨halike, -, hidle, -⟩ := holding_loses_nothing hmade redLight.bench hpower darkening
  have hgreen : (redLight.play [.step, .write .color (-0.0), .step]).output.param? (.channel .g) =
      some ⟨0.0, false⟩ := by decide
  have hnotdue : ¬ redLight.Due darkening := by
    have hlast : darkening = [.step, .write .color (-0.0), .step] ++ [.write (.channel .g) 0.0] :=
      rfl
    rw [hlast, Run.due_append]
    rintro ⟨-, hdue | ⟨u, hu, p, hp, hne⟩⟩
    · have hstepped : redLight.Due ([.step, .write .color (-0.0)] ++ [.step]) := hdue
      exact (Run.due_append.mp hstepped).1 rfl
    · obtain rfl := List.mem_singleton.mp hu
      obtain rfl := Option.some.inj (hgreen.symm.trans hp)
      exact hne (by decide)
  exact ⟨hmade, hpower, halike 4 (by decide), by decide, by decide,
    hdue (.inl List.not_mem_nil) 4 (by decide), hidle hnotdue⟩

end Output

end Patchbay
