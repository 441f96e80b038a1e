import Patchbay.Binding
import Patchbay.Color
import Patchbay.Param
/-!
# Targets

The places of an output that a connection may write to.
-/

namespace Patchbay

inductive Channel
  | r
  | g
  | b
deriving DecidableEq, Repr

inductive Target
  | color
  | channel (c : Channel)
  | brightness
  | period
  | value
  | max
  | restart
deriving DecidableEq, Repr

namespace Target

/-- A colour is written as a whole or by channel. -/
def colorJack : Jack Target :=
  ⟨some color, [("r", channel .r), ("g", channel .g), ("b", channel .b)]⟩

end Target

/-- A colour of three parameters. -/
structure ColorParam where
  r : Param
  g : Param
  b : Param
deriving DecidableEq

namespace ColorParam

def ofColor (c : Color) : ColorParam := ⟨⟨c.r, true⟩, ⟨c.g, true⟩, ⟨c.b, true⟩⟩

def value (p : ColorParam) : Color := ⟨p.r.value, p.g.value, p.b.value⟩

def dirty (p : ColorParam) : Bool := p.r.dirty || p.g.dirty || p.b.dirty

def clean (p : ColorParam) : ColorParam := ⟨p.r.clean, p.g.clean, p.b.clean⟩

/-- Writes one channel. -/
def set (p : ColorParam) (c : Channel) (v : Float32) : ColorParam :=
  match c with
  | .r => { p with r := p.r.set v }
  | .g => { p with g := p.g.set v }
  | .b => { p with b := p.b.set v }

/-- Writes all channels. -/
def setAll (p : ColorParam) (v : Float32) : ColorParam := ⟨p.r.set v, p.g.set v, p.b.set v⟩

end ColorParam

end Patchbay
