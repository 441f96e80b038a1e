import Patchbay.Proofs.Output.Ranges
import Patchbay.Proofs.Rig.Devices
import Patchbay.Proofs.Single.Opposite

/-! # Motors on a bridge

A motor on a bridge turns forward by one pin and backward by the other.  However it is set, at most
one of the two is driven, on the side of the last speed, and the opposite speed swaps them. -/

namespace Patchbay

namespace Motor

open Single (Exact exact_zero clamp nan)

/-! ## Duties -/

/-- The share of each period for which a pin of a bridge is high at a value. -/
def share (v : Float32) : Float32 :=
  Single.trunc (clamp 0.0 1.0 v * Single.ofInt 255) / Single.ofInt 255

variable {v speed : Float32} {q : ℚ} {p : OutputPin}

theorem resolve_eq_share (hmode : p.mode = .pwm) (hwiring : p.wiring = { number := p.number })
    (v : Float32) : (p.resolve v).2 = .duty (share v) 1000 := by
  unfold OutputPin.resolve
  rw [hmode, hwiring]
  rfl

theorem share_nan : share nan = nan := by
  unfold share
  rw [Single.clamp_nan, Single.nan_mul, Single.trunc_nan, Single.nan_div]

/-- A pin is high at times only for a positive value. -/
theorem pos_of_share_pos (hv : Exact v q) (h : 0.0 < share v) : 0 < q := by
  by_contra hq
  have hcut : Exact (clamp 0.0 1.0 v) 0 := by
    rw [Single.clamp_of_exact exact_zero .one zero_le_one hv, if_neg (show ¬ 1 < q by linarith)]
    split
    next => exact exact_zero
    next hnonneg => exact le_antisymm (not_lt.mp hq) (not_lt.mp hnonneg) ▸ hv
  have hsteps : Exact (Single.ofInt 255) 255 :=
    .positive (Single.hasValue_ofInt (i := 255) (by decide) (by decide))
  have hscaled := (zero_mul (255 : ℚ) ▸ hcut.mul hsteps).exact_zero
  obtain ⟨i, hi, hle, -⟩ := hscaled.trunc
  obtain rfl : i = 0 := by simpa using hle
  have hshare : Exact (share v) 0 := by
    have hquotient := hi.div hsteps (by norm_num)
    rw [Int.cast_zero, zero_div] at hquotient
    exact hquotient.exact_zero
  exact absurd ((exact_zero.lt_iff hshare).mp h) (lt_irrefl 0)

/-- A pin is high at times only for a speed to its side, so not both are. -/
theorem share_one_way (speed : Float32) :
    let forward := share (clamp (-1.0) 1.0 speed)
    let backward := share (-clamp (-1.0) 1.0 speed)
    ¬ (0.0 < forward ∧ 0.0 < backward) ∧ (0.0 < forward → 0.0 < speed) ∧
      (0.0 < backward → speed < 0.0) := by
  by_cases hnan : speed.isNaN
  · have hneg : -nan = nan := by rfl
    rw [Single.eq_nan_of_isNaN hnan, Single.clamp_nan, hneg, share_nan]
    have hnot := Single.not_lt_nan 0.0
    exact ⟨fun h => hnot h.1, fun h => absurd h hnot, fun h => absurd h hnot⟩
  · obtain ⟨q, hq, hpos, hneg⟩ := Single.exists_exact_clamp_unit hnan
    have hforward := pos_of_share_pos hq
    have hbackward (h : 0.0 < share (-clamp (-1.0) 1.0 speed)) : q < 0 :=
      neg_pos.mp (pos_of_share_pos hq.neg h)
    exact ⟨fun h => lt_asymm (hforward h.1) (hbackward h.2), fun h => hpos (hforward h),
      fun h => hneg (hbackward h)⟩

/-- Beyond full speed, the pin of that side is high all the time. -/
theorem share_of_one_lt (hspeed : 1.0 < speed) : share (clamp (-1.0) 1.0 speed) = 1.0 := by
  have hcut : clamp (-1.0) 1.0 speed = 1.0 := by
    rcases Single.infinite_or_exact (Single.not_isNaN_of_lt hspeed) with rfl | rfl | ⟨q, hq⟩
    · exact absurd hspeed (by decide)
    · decide
    · have hlt : 1 < q := (Exact.one.lt_iff hq).mp hspeed
      rw [Single.clamp_of_exact Exact.one.neg .one (by norm_num) hq, if_neg (by linarith),
        if_pos hlt]
  rw [hcut]
  decide +kernel

/-- The opposite speed swaps the pins. -/
theorem share_neg (hspeed : ¬ speed.isNaN) :
    share (clamp (-1.0) 1.0 (-speed)) = share (-clamp (-1.0) 1.0 speed) ∧
      share (-clamp (-1.0) 1.0 (-speed)) = share (clamp (-1.0) 1.0 speed) := by
  rw [Single.clamp_neg hspeed, Single.neg_neg]
  exact ⟨rfl, rfl⟩

/-! ## Lines -/

/-- Sets a motor to one speed after another. -/
def setEach (m : Motor) (speeds : List Float32) (b : Bench) : Motor × Bench :=
  speeds.foldl (fun (m, b) speed => m.set speed b) (m, b)

variable {m : Motor} {b b' : Bench} {numbers : List UInt8}

theorem setEach_append (m : Motor) (speeds : List Float32) (speed : Float32) (b : Bench) :
    m.setEach (speeds ++ [speed]) b =
      (m.setEach speeds b).1.set speed (m.setEach speeds b).2 := by
  rw [setEach, List.foldl_append]
  rfl

/-- Setting leaves a motor open, with its name and its pins. -/
theorem opened_setEach (h : m.Opened) (speeds : List Float32) (b : Bench) :
    (m.setEach speeds b).1.Opened ∧ (m.setEach speeds b).1.name = m.name ∧
      (m.setEach speeds b).1.numbers = m.numbers := by
  induction speeds generalizing m b with
  | nil => exact ⟨h, rfl, rfl⟩
  | cons speed rest ih =>
      obtain ⟨hopened, hname, hnumbers⟩ := ih (h.set speed b) (m.set speed b).2
      exact ⟨hopened, hname, hnumbers.trans (numbers_set m speed b)⟩

/-- Setting a motor on a bridge. -/
theorem lines_set (h : m.Opened) (hname : m.name = .l298n) (speed : Float32) (b : Bench) :
    m.numbers.map (fun pin => ((m.set speed b).2.line pin).last) =
      [some (.duty (share (clamp (-1.0) 1.0 speed)) 1000),
        some (.duty (share (-clamp (-1.0) 1.0 speed)) 1000)] := by
  obtain ⟨hwired, hlength⟩ := h.wired
  rw [hname] at hwired hlength
  obtain ⟨p, q, hpins⟩ := List.length_eq_two.mp hlength
  have hline {pin : OutputPin} {v : Float32}
      (hv : (pin, v) ∈ m.pins.zip (m.name.pinValues b.power (clamp (-1.0) 1.0 speed))) :
      ((m.set speed b).2.line pin.number).last = some (.duty (share v) 1000) := by
    have hpin := (List.of_mem_zip hv).1
    rw [← resolve_eq_share (hwired.mode_eq hpin) (hwired.wiring_eq hpin)]
    exact congrArg Line.last (OutputPin.line_setAll_of_mem hwired.nodup hv)
  have hzip : m.pins.zip (m.name.pinValues b.power (clamp (-1.0) 1.0 speed)) =
      [(p, clamp (-1.0) 1.0 speed), (q, -clamp (-1.0) 1.0 speed)] := by
    rw [hpins, hname]
    rfl
  have hnumbers : m.numbers = [p.number, q.number] := congrArg (List.map OutputPin.number) hpins
  rw [hnumbers, List.map_cons, List.map_singleton, hline (hzip ▸ List.mem_cons_self),
    hline (hzip ▸ List.mem_cons_of_mem _ (List.mem_singleton_self _))]

/-- The pins that were given to a motor on a bridge are its pins, and at rest. -/
theorem lines_attach (h : attach .l298n numbers b = .ok m b') :
    m.numbers = numbers ∧ numbers.map (fun pin => (b'.line pin).last) =
      [some (.duty 0.0 1000), some (.duty 0.0 1000)] := by
  have hnumbers : m.numbers = numbers := by
    have htaken := attach_attempt .l298n numbers b
    rw [h] at htaken
    cases htaken with
    | ok hnumbers _ => exact hnumbers
  obtain ⟨-, hlength, hwired, hlast⟩ := attach_eq_ok h
  obtain ⟨p, q, hpins⟩ := List.length_eq_two.mp hlength
  have hshare : share 0.0 = 0.0 := by rfl
  have hrest {pin : OutputPin} (hpin : pin ∈ m.pins) :
      (b'.line pin.number).last = some (.duty 0.0 1000) := by
    rw [hlast pin hpin, resolve_eq_share (hwired.mode_eq hpin) (hwired.wiring_eq hpin), hshare]
  have hpair : m.numbers = [p.number, q.number] := congrArg (List.map OutputPin.number) hpins
  refine ⟨hnumbers, ?_⟩
  rw [← hnumbers, hpair, List.map_cons, List.map_singleton, hrest (hpins ▸ List.mem_cons_self),
    hrest (hpins ▸ List.mem_cons_of_mem _ (List.mem_singleton_self _))]

/-- Once a motor on a bridge is opened, its lines are at rest.  However it is set after that, at
most one of them is high at times: the first only for a positive speed, and all the time beyond full
speed; the second only for a negative one.  The opposite speed would swap them. -/
theorem bridge_driven_one_way (h : attach .l298n numbers b = .ok m b') :
    let duties (b : Bench) := numbers.map fun pin => (b.line pin).last
    let rest : Option Drive := some (.duty 0.0 1000)
    duties b' = [rest, rest] ∧ ∀ speeds speed, ∃ forward backward,
      duties (m.setEach (speeds ++ [speed]) b').2 =
        [some (.duty forward 1000), some (.duty backward 1000)] ∧
      ¬ (0.0 < forward ∧ 0.0 < backward) ∧
      (0.0 < forward → 0.0 < speed) ∧ (0.0 < backward → speed < 0.0) ∧
      (1.0 < speed → forward = 1.0) ∧ (¬ speed.isNaN →
        duties (m.setEach (speeds ++ [-speed]) b').2 =
          [some (.duty backward 1000), some (.duty forward 1000)]) := by
  obtain ⟨hnumbers, hrest⟩ := lines_attach h
  refine ⟨hrest, fun speeds speed => ?_⟩
  obtain ⟨hopened, hname, hkept⟩ := opened_setEach (.attach h) speeds b'
  have hlines (speed : Float32) := lines_set hopened (hname.trans (attach_eq_ok h).1) speed
    (m.setEach speeds b').2
  rw [hkept, hnumbers] at hlines
  obtain ⟨hone, hforward, hbackward⟩ := share_one_way speed
  refine ⟨_, _, ?_, hone, hforward, hbackward, share_of_one_lt, fun hspeed => ?_⟩
  · rw [setEach_append]
    exact hlines speed
  · obtain ⟨hswap, hswap'⟩ := share_neg hspeed
    rw [setEach_append, ← hswap, ← hswap']
    exact hlines (-speed)

/-- Set to NaN and then backward, the motor on pins 10 and 11 does not go forward; its pins would be
driven the other way round for the opposite speed, infinite or not. -/
theorem bridge_driven_one_way_infinite_speed :
    let speed : Float32 := -(1.0 / 0.0)
    ¬ speed.isNaN ∧ ∃ m b', attach .l298n [10, 11] {} = .ok m b' ∧
      (b'.line 10).last = some (.duty 0.0 1000) ∧ ∃ forward backward, ¬ 0.0 < forward ∧
        [10, 11].map (fun pin => ((m.setEach [0.0 / 0.0, speed] b').2.line pin).last) =
          [some (.duty forward 1000), some (.duty backward 1000)] ∧
        [10, 11].map (fun pin => ((m.setEach [0.0 / 0.0, -speed] b').2.line pin).last) =
          [some (.duty backward 1000), some (.duty forward 1000)] := by
  intro speed
  have hspeed : ¬ speed.isNaN := by decide
  have hback : ¬ 0.0 < speed := by decide
  obtain ⟨m, b', h⟩ : ∃ m b', attach .l298n [10, 11] {} = .ok m b' := ⟨_, _, rfl⟩
  obtain ⟨hrest, hset⟩ := bridge_driven_one_way h
  obtain ⟨forward, backward, hlines, -, hforward, -, -, hswap⟩ := hset [0.0 / 0.0] speed
  exact ⟨hspeed, m, b', h, (List.cons.inj hrest).1, forward, backward, mt hforward hback, hlines,
    hswap hspeed⟩

end Motor

end Patchbay
