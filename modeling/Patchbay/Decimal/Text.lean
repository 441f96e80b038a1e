import Patchbay.Decimal.Shortest
/-!
# Written decimals

How numbers appear in messages.  The plain form is positional and drops an empty fraction.  The
tagged form keeps one decimal place, so that a number is seen not to be an integer, and goes over to
an exponent for numbers too large or too small to read.
-/

namespace Patchbay.Decimal

open Float.Model (Format UnpackedFloat)
open Float.Model.UnpackedFloat (Sign)

/-- Decimal digits, without leading zeros. -/
def digitsOf (n : Nat) : List Char := Nat.toDigits 10 n

/-- The number `n / 10 ^ places`, with all its places. -/
def pointed (n places : Nat) : List Char :=
  let digits := digitsOf n
  let padded := List.replicate (places + 1 - digits.length) '0' ++ digits
  let whole := padded.length - places
  if places = 0 then padded else padded.take whole ++ '.' :: padded.drop whole

/-- A decimal without exponent and with at least `places` decimal places. -/
def Scaled.positional (d : Scaled) (places : Nat) : List Char :=
  let fraction := max places (-d.scale).toNat
  pointed (d.digits * Nat.pow 10 (d.scale + fraction).toNat) fraction

/-- A decimal with one digit before the point, none after it unless needed, and an exponent. -/
def Scaled.exponential (d : Scaled) : List Char :=
  let digits := digitsOf d.digits
  let exponent := d.scale + (digits.length - 1 : Nat)
  let fraction := digits.drop 1
  digits.take 1 ++ (if fraction.isEmpty then [] else '.' :: fraction)
    ++ 'e' :: (toString exponent).toList

def signText : Sign → List Char
  | .positive => []
  | .negative => ['-']

/-- The text of a number whose finite values are written by `write`. -/
def textWith (write : Nat → Int → List Char) (zero : List Char) : UnpackedFloat → String
  | .notANumber => "NaN"
  | .infinity sign => .ofList (signText sign ++ ['i', 'n', 'f'])
  | .zero sign => .ofList (signText sign ++ zero)
  | .finite sign m e _ => .ofList (signText sign ++ write m e)

/-- The plain form of a value of a format. -/
def plainOf (format : Format) (value : UnpackedFloat) : String :=
  textWith (fun m e => (shortest format m e).positional 0) ['0'] value

/-- Fixed places of the exact value; a half goes to the even last digit. -/
def fixedOf (places : Nat) (value : UnpackedFloat) : String :=
  let write (m : Nat) (e : Int) : List Char :=
    let num := (m <<< e.toNat) * Nat.pow 10 places
    let den := 1 <<< (-e).toNat
    let q := num / den
    let up := den < 2 * (num % den) ∨ (2 * (num % den) = den ∧ q % 2 = 1)
    pointed (if up then q + 1 else q) places
  textWith write (pointed 0 places) value

/-- The plain form of a single-precision number. -/
def plain (x : Float32) : String := plainOf .binary32 (Single.view x)

/-- The plain form of a double-precision number. -/
def plainDouble (x : Float) : String := plainOf .binary64 (Single.viewDouble x)

/-- The tagged form of a single-precision number. -/
def tagged (x : Float32) : String :=
  let write (m : Nat) (e : Int) : List Char :=
    let d := shortest .binary32 m e
    if x.abs < 1e-4 ∨ x.abs ≥ 1e16 then d.exponential else d.positional 1
  textWith write ['0', '.', '0'] (Single.view x)

/-- The plain form of a double-precision number, with a decimal place where it has none. -/
def pointedDouble (x : Float) : String :=
  textWith (fun m e => (shortest .binary64 m e).positional 1) ['0', '.', '0'] (Single.viewDouble x)

/-- Three decimal places. -/
def thousandths (x : Float32) : String := fixedOf 3 (Single.view x)

end Patchbay.Decimal
