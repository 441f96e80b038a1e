/-!
# Single-precision arithmetic

The operations on `Float32` that actuators need beyond `+ - * /`: cutting off a fraction, keeping a
value between two bounds, the sign of a value, exact remainders, and exact conversion to and from
double precision.  All are read off the exact value of a number, so they hold no rounding of their
own except where a result does not fit.
-/

namespace Patchbay.Single

open Float.Model (Format UnpackedFloat)
open Float.Model.UnpackedFloat (Sign)

/-- The exact value of a single-precision number. -/
def view (x : Float32) : UnpackedFloat := x.toModel.unpack

/-- The exact value of a double-precision number. -/
def viewDouble (x : Float) : UnpackedFloat := x.toModel.unpack

/-- The value `± m · 2 ^ e`, which is a zero of that sign when `m` is zero. -/
def scaled (sign : Sign) (m : Nat) (e : Int) : UnpackedFloat :=
  if h : m = 0 then .zero sign else .finite sign m e (Nat.pos_of_ne_zero h)

/-- The nearest value of a format; halves go to the even neighbour. -/
def nearest (format : Format) : UnpackedFloat → UnpackedFloat
  | .finite sign m e _ => .round format sign m e
  | value => value

/-- The single-precision number nearest to a value. -/
def ofView (value : UnpackedFloat) : Float32 := ⟨.pack (nearest .binary32 value)⟩

/-- The double-precision number nearest to a value. -/
def doubleOfView (value : UnpackedFloat) : Float := ⟨.pack (nearest .binary64 value)⟩

/-- Every single-precision number is a double-precision number too. -/
def widen (x : Float32) : Float := doubleOfView (view x)

/-- Rounds a double-precision number to single precision. -/
def narrow (x : Float) : Float32 := ofView (viewDouble x)

/-- The value of an integer. -/
def viewOfInt (n : Int) : UnpackedFloat :=
  scaled (if n < 0 then .negative else .positive) n.natAbs 0

/-- The single-precision number nearest to an integer. -/
def ofInt (n : Int) : Float32 := ofView (viewOfInt n)

/-- The double-precision number nearest to an integer. -/
def doubleOfInt (n : Int) : Float := doubleOfView (viewOfInt n)

/-- Cuts off the fraction. -/
def trunc (x : Float32) : Float32 :=
  match view x with
  | .finite sign m e _ => if 0 ≤ e then x else ofView (scaled sign (m >>> (-e).toNat) 0)
  | _ => x

/-- The remainder of `x` by `y` after cutting off the fraction of the quotient.  It is exact and
has the sign of `x`. -/
def remainder (x y : Float32) : Float32 :=
  match view x, view y with
  | .finite sign m e _, .finite _ n f _ =>
    let unit := min e f
    ofView (scaled sign ((m <<< (e - unit).toNat) % (n <<< (f - unit).toNat)) unit)
  | .finite .., .infinity _ => x
  | .zero _, .finite .. => x
  | .zero _, .infinity _ => x
  | _, _ => 0.0 / 0.0

/-- The remainder moved into `[0, |y|]`. -/
def cycle (x y : Float32) : Float32 :=
  let r := remainder x y
  if r < 0.0 then r + y.abs else r

/-- The bound that `x` passes, or `x` itself.  NaN passes neither bound. -/
def clamp (low high x : Float32) : Float32 :=
  let y := if x < low then low else x
  if y > high then high else y

/-- The larger of two numbers; NaN counts as missing. -/
def larger (x y : Float32) : Float32 :=
  if x.isNaN then y else if y.isNaN then x else if x < y then y else x

/-- Plus or minus one, after the sign bit; NaN stays NaN. -/
def signum (x : Float32) : Float32 :=
  match view x with
  | .notANumber => x
  | .infinity .positive | .zero .positive | .finite .positive .. => 1.0
  | .infinity .negative | .zero .negative | .finite .negative .. => -1.0

/-- Half the circumference of the unit circle. -/
def pi : Float32 := .ofBits 0x40490fdb

end Patchbay.Single
