import Patchbay.Motor.Basic
import Patchbay.Output.Target
import Patchbay.Timer
/-!
# Modes of a motor

A motor holds a speed, swings along a sine wave, or dances: it swings faster and faster until it is
worn out, and rests until it is asked again.
-/

namespace Patchbay

/-- Holds a speed; sets its pins only when the speed changed. -/
structure ConstantMotor where
  motor : Motor
  value : Param
deriving DecidableEq

namespace ConstantMotor

def make (motor : Motor) (value : Float32) : ConstantMotor := { motor, value := ⟨value, true⟩ }

def jacks : List (String × Jack Target) := [("value", .single .value)]

def write (o : ConstantMotor) (t : Target) (v : Float32) : ConstantMotor :=
  match t with
  | .value => { o with value := o.value.set v }
  | _ => o

def step (o : ConstantMotor) (b : Bench) : ConstantMotor × Bench :=
  if o.value.dirty then
    let (motor, b) := o.motor.set o.value.value b
    ({ motor, value := o.value.clean }, b)
  else (o, b)

end ConstantMotor

/-- The height of a sine wave of a period, in seconds, after some seconds. -/
def wave (period elapsed : Float32) : Float32 := (2.0 * Single.pi / period * elapsed).sin

/-- Swings along a sine wave of height `max`, anew each period. -/
structure OscillatingMotor where
  motor : Motor
  max : Param
  period : Param
  timer : Timer
deriving DecidableEq

namespace OscillatingMotor

def make (motor : Motor) (max period : Float32) (now : Nat) : OscillatingMotor :=
  { motor, max := ⟨max, true⟩, period := ⟨atLeastMinPeriod period, true⟩, timer := .started now }

def jacks : List (String × Jack Target) := [("period", .single .period), ("max", .single .max)]

def write (o : OscillatingMotor) (t : Target) (v : Float32) : OscillatingMotor :=
  match t with
  | .period => { o with period := o.period.set (atLeastMinPeriod v) }
  | .max => { o with max := o.max.set v }
  | _ => o

def step (o : OscillatingMotor) (b : Bench) : OscillatingMotor × Bench :=
  let period := o.period.value
  let elapsed := o.timer.elapsed b.clock
  let (height, timer) :=
    if elapsed > period then (0.0, o.timer.reset b.clock) else (wave period elapsed, o.timer)
  let (motor, b) := o.motor.set (height * o.max.value) b
  ({ o with motor, timer }, b)

end OscillatingMotor

inductive DancePhase
  | idle
  | dancing
  | stopped
deriving DecidableEq, Repr

/-- Swings with a period that halves every two starting periods, until it is a sixteenth. -/
structure DancingMotor where
  motor : Motor
  /-- The starting period that connections ask for. -/
  asked : Param
  /-- Whether a new dance was asked for since the last step. -/
  restart : Bool := false
  phase : DancePhase := .idle
  /-- The starting period of the current dance. -/
  start : Float32
  period : Float32
  timer : Timer
deriving DecidableEq

namespace DancingMotor

def make (motor : Motor) (period : Float32) (now : Nat) : DancingMotor :=
  let period := atLeastMinPeriod period
  { motor, asked := ⟨period, true⟩, start := period, period, timer := .started now }

def jacks : List (String × Jack Target) :=
  [("period", .single .period), ("restart", .single .restart)]

def write (o : DancingMotor) (t : Target) (v : Float32) : DancingMotor :=
  match t with
  | .period => { o with asked := o.asked.set (atLeastMinPeriod v) }
  | .restart => if 0.5 ≤ v then { o with restart := true } else o
  | _ => o

/-- Takes over the period asked for. -/
def adopt (o : DancingMotor) : DancingMotor :=
  { o with asked := o.asked.clean, start := o.asked.value, period := o.asked.value }

/-- Begins a dance. -/
def begin (o : DancingMotor) (b : Bench) : DancingMotor × Bench :=
  let o := { o.adopt with timer := o.timer.start b.clock, phase := .dancing }
  (o, b.note .debug s!"Dance started with period {Decimal.plain o.start}s")

/-- Goes on with a dance; a new period takes over at once. -/
def keepOn (o : DancingMotor) (b : Bench) : DancingMotor × Bench :=
  if o.asked.dirty then
    (o.adopt, b.note .debug s!"Dance period changed to {Decimal.plain o.adopt.start}s")
  else (o, b)

/-- Halves the period when two starting periods are over. -/
def hasten (o : DancingMotor) (now : Nat) : DancingMotor × Float32 :=
  let elapsed := o.timer.elapsed now
  if elapsed > o.start * 2.0 then
    ({ o with timer := o.timer.reset now, period := o.period / 2.0 }, 0.0)
  else (o, wave o.period elapsed)

/-- Moves the motor in a dance, and ends the dance when the period is a sixteenth. -/
def swing (o : DancingMotor) (b : Bench) : DancingMotor × Bench :=
  let (o, height) := o.hasten b.clock
  let (o, height, b) :=
    if o.period ≤ o.start * (1.0 / 16.0) then
      ({ o with timer := o.timer.stop b.clock, phase := .stopped }, 0.0,
        b.note .info "Dance finished")
    else (o, height, b)
  let (motor, b) := o.motor.set height b
  ({ o with motor }, b)

def step (o : DancingMotor) (b : Bench) : DancingMotor × Bench :=
  let again := o.restart
  let o := { o with restart := false }
  match o.phase, again with
  | .idle, _ | .stopped, true =>
    let (o, b) := o.begin b
    o.swing b
  | .stopped, false =>
    let (motor, b) := o.motor.set 0.0 b
    ({ o with motor }, b)
  | .dancing, _ =>
    let (o, b) := o.keepOn b
    o.swing b

end DancingMotor

end Patchbay
