import Patchbay.Single.Basic
/-!
# Decimal literals

Reading a number from text: an optional sign, digits with an optional point among or before or after
them, and an optional exponent.  A literal keeps its exact value until it is rounded to a number.
-/

namespace Patchbay.Decimal

/-- The exact value `± digits · 10 ^ scale` of a literal. -/
structure Literal where
  negative : Bool
  digits : Nat
  scale : Int
deriving DecidableEq, Repr

/-- The number that a run of digits stands for. -/
def natOfDigits (cs : List Char) : Nat :=
  cs.foldl (fun n c => 10 * n + (c.toNat - '0'.toNat)) 0

/-- Takes an optional sign off; true for a minus. -/
def splitSign : List Char → Bool × List Char
  | '-' :: rest => (true, rest)
  | '+' :: rest => (false, rest)
  | rest => (false, rest)

/-- The exponent part, up to the end of the text. -/
def exponentOf : List Char → Option Int
  | [] => some 0
  | c :: rest =>
    let (negative, digits) := splitSign rest
    if (c = 'e' ∨ c = 'E') ∧ digits ≠ [] ∧ digits.all Char.isDigit then
      some (if negative then -natOfDigits digits else natOfDigits digits)
    else none

/-- Reads a literal without sign; there must be a digit before or after the point. -/
def magnitudeOf (negative : Bool) (cs : List Char) : Option Literal :=
  let whole := cs.takeWhile Char.isDigit
  let (fraction, rest) : List Char × List Char :=
    match cs.dropWhile Char.isDigit with
    | '.' :: rest => (rest.takeWhile Char.isDigit, rest.dropWhile Char.isDigit)
    | rest => ([], rest)
  if whole = [] ∧ fraction = [] then none
  else (exponentOf rest).map fun exponent =>
    ⟨negative, natOfDigits (whole ++ fraction), exponent - fraction.length⟩

/-- Reads a whole text as a literal. -/
def Literal.read (cs : List Char) : Option Literal :=
  let (negative, rest) := splitSign cs
  magnitudeOf negative rest

/-- The nearest single-precision number. -/
def Literal.single (l : Literal) : Float32 :=
  let magnitude := Float32.ofScientific l.digits (l.scale < 0) l.scale.natAbs
  if l.negative then -magnitude else magnitude

/-- The nearest double-precision number. -/
def Literal.double (l : Literal) : Float :=
  let magnitude := Float.ofScientific l.digits (l.scale < 0) l.scale.natAbs
  if l.negative then -magnitude else magnitude

/-- The names of the values that have no digits, in lower case. -/
def named : List Char → Option Float32
  | ['i', 'n', 'f'] | ['i', 'n', 'f', 'i', 'n', 'i', 't', 'y'] => some (1.0 / 0.0)
  | ['n', 'a', 'n'] => some (0.0 / 0.0)
  | _ => none

/-- Reads a single-precision number: a literal, or an infinity or NaN in letters of any case. -/
def readSingle (cs : List Char) : Option Float32 :=
  let (negative, rest) := splitSign cs
  match named (rest.map Char.toLower) with
  | some x => some (if negative then -x else x)
  | none => (Literal.read cs).map Literal.single

end Patchbay.Decimal
