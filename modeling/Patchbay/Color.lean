import Patchbay.Decimal.Text
import Patchbay.Text.Blank
/-!
# Colours

A colour is three channels; the full colours have names, and a hue on the colour circle gives any
colour between them.
-/

namespace Patchbay

structure Color where
  r : Float32
  g : Float32
  b : Float32
deriving DecidableEq

namespace Color

def red : Color := ⟨1.0, 0.0, 0.0⟩
def yellow : Color := ⟨1.0, 1.0, 0.0⟩
def green : Color := ⟨0.0, 1.0, 0.0⟩
def cyan : Color := ⟨0.0, 1.0, 1.0⟩
def blue : Color := ⟨0.0, 0.0, 1.0⟩
def magenta : Color := ⟨1.0, 0.0, 1.0⟩
def black : Color := ⟨0.0, 0.0, 0.0⟩
def white : Color := ⟨1.0, 1.0, 1.0⟩

def named : List (String × Color) :=
  [("red", red), ("yellow", yellow), ("green", green), ("cyan", cyan), ("blue", blue),
    ("magenta", magenta), ("black", black), ("white", white)]

/-- The colour of a name, which may be written in any case. -/
def ofName? (name : String) : Option Color := named.lookup (Text.fold name)

/-- The same value on every channel. -/
def splat (v : Float32) : Color := ⟨v, v, v⟩

def channels (c : Color) : List Float32 := [c.r, c.g, c.b]

def scale (c : Color) (v : Float32) : Color := ⟨c.r * v, c.g * v, c.b * v⟩

def offset (c : Color) (v : Float32) : Color := ⟨c.r + v, c.g + v, c.b + v⟩

/-- The colour of a hue in degrees, with saturation and value in [0, 1]. -/
def ofHue (hue saturation value : Float32) : Color :=
  let hue := Single.cycle hue 360.0
  let saturation := Single.clamp 0.0 1.0 saturation
  let value := Single.clamp 0.0 1.0 value
  let chroma := value * saturation
  let side := chroma * (1.0 - (Single.remainder (hue / 60.0) 2.0 - 1.0).abs)
  let base : Color :=
    match (hue / 60.0).toUInt32.toNat with
    | 0 => ⟨chroma, side, 0.0⟩
    | 1 => ⟨side, chroma, 0.0⟩
    | 2 => ⟨0.0, chroma, side⟩
    | 3 => ⟨0.0, side, chroma⟩
    | 4 => ⟨side, 0.0, chroma⟩
    | _ => ⟨chroma, 0.0, side⟩
  base.offset (value - chroma)

def text (c : Color) : String :=
  let r := Decimal.plain c.r
  let g := Decimal.plain c.g
  let b := Decimal.plain c.b
  s!"\x7b{r}, {g}, {b}\x7d"

/-- The parts of a colour, for inspection. -/
def describe (c : Color) : String :=
  let r := Decimal.tagged c.r
  let g := Decimal.tagged c.g
  let b := Decimal.tagged c.b
  s!"Color \x7b r: {r}, g: {g}, b: {b} \x7d"

end Color

end Patchbay
