import Patchbay.Light.Basic
import Patchbay.Output.Target
import Patchbay.Timer
/-!
# Modes of a light

A light shows one colour, walks the colour circle, or fades one colour in and out.
-/

namespace Patchbay

/-- Shows one colour; sets its pins only when a parameter changed. -/
structure SolidLight where
  light : Light
  color : ColorParam
  brightness : Param
deriving DecidableEq

namespace SolidLight

def make (light : Light) (color : Color) (brightness : Float32) : SolidLight :=
  { light, color := .ofColor color, brightness := ⟨brightness, true⟩ }

def jacks : List (String × Jack Target) :=
  [("color", Target.colorJack), ("brightness", .single .brightness)]

def write (o : SolidLight) (t : Target) (v : Float32) : SolidLight :=
  match t with
  | .color => { o with color := o.color.setAll v }
  | .channel c => { o with color := o.color.set c v }
  | .brightness => { o with brightness := o.brightness.set v }
  | _ => o

def step (o : SolidLight) (b : Bench) : SolidLight × Bench :=
  if o.color.dirty || o.brightness.dirty then
    let (light, b) := o.light.setColor (o.color.value.scale o.brightness.value) b
    ({ light, color := o.color.clean, brightness := o.brightness.clean }, b)
  else (o, b)

end SolidLight

/-- Walks the colour circle once per period. -/
structure CyclingLight where
  light : Light
  brightness : Param
  period : Param
  timer : Timer
deriving DecidableEq

namespace CyclingLight

def make (light : Light) (brightness period : Float32) (now : Nat) : CyclingLight :=
  { light, brightness := ⟨brightness, true⟩, period := ⟨atLeastMinPeriod period, true⟩
    timer := .started now }

def jacks : List (String × Jack Target) :=
  [("brightness", .single .brightness), ("period", .single .period)]

def write (o : CyclingLight) (t : Target) (v : Float32) : CyclingLight :=
  match t with
  | .brightness => { o with brightness := o.brightness.set v }
  | .period => { o with period := o.period.set (atLeastMinPeriod v) }
  | _ => o

def step (o : CyclingLight) (b : Bench) : CyclingLight × Bench :=
  let hue := o.timer.elapsed b.clock * 360.0 / o.period.value
  let (hue, timer) := if hue > 360.0 then (360.0, o.timer.reset b.clock) else (hue, o.timer)
  let (light, b) := o.light.setColor (.ofHue hue 1.0 o.brightness.value) b
  ({ o with light, timer }, b)

end CyclingLight

/-- Fades a colour in and out along a sine wave. -/
structure FlashingLight where
  light : Light
  color : ColorParam
  brightness : Param
  period : Param
  timer : Timer
deriving DecidableEq

namespace FlashingLight

def make (light : Light) (color : Color) (brightness period : Float32) (now : Nat) :
    FlashingLight :=
  { light, color := .ofColor color, brightness := ⟨brightness, true⟩
    period := ⟨atLeastMinPeriod period, true⟩, timer := .started now }

def jacks : List (String × Jack Target) :=
  [("color", Target.colorJack), ("brightness", .single .brightness), ("period", .single .period)]

def write (o : FlashingLight) (t : Target) (v : Float32) : FlashingLight :=
  match t with
  | .color => { o with color := o.color.setAll v }
  | .channel c => { o with color := o.color.set c v }
  | .brightness => { o with brightness := o.brightness.set v }
  | .period => { o with period := o.period.set (atLeastMinPeriod v) }
  | _ => o

def step (o : FlashingLight) (b : Bench) : FlashingLight × Bench :=
  let phase := 2.0 * Single.pi * o.timer.elapsed b.clock / o.period.value
  let level := (phase.sin + 1.0) / 2.0
  let (light, b) :=
    o.light.setColor ((o.color.value.scale o.brightness.value).scale level) b
  ({ o with light }, b)

end FlashingLight

end Patchbay
