import Patchbay.Decimal.Literal
import Patchbay.Toml.Quoted
/-!
# Numbers

Integers of 64 bits in four bases, and double-precision numbers.  An underscore may stand between
any two digits.
-/

namespace Patchbay.Toml

open Scan

/-- Digits with underscores between them. -/
def digits (p : Char → Bool) : Scan (List Char) :=
  return (← one p) :: (← many (one p <|> (char '_' *> one p)))

/-- Whether there is a minus; a plus may be written too. -/
def sign : Scan Bool := (char '-' *> pure true) <|> (char '+' *> pure false) <|> pure false

/-- The digits of a decimal without leading zeros. -/
def decimal : Scan (List Char) := (char '0' *> pure ['0']) <|> digits Char.isDigit

def intRange (n : Int) : Option Int :=
  if Int64.minValue.toInt ≤ n ∧ n ≤ Int64.maxValue.toInt then some n else none

/-- An integer to a base other than ten. -/
def based (mark : Char) (base : Nat) (p : Char → Bool) : Scan Int := do
  word ['0', mark]
  return natOfBase base (← digits p)

def decimalInteger : Scan Int := do
  let negative ← sign
  let n := Decimal.natOfDigits (← decimal)
  return if negative then -n else n

def integer : Scan Int :=
  (based 'x' 16 isHexDigit <|> based 'o' 8 (fun c => '0' ≤ c && c ≤ '7')
    <|> based 'b' 2 (fun c => c = '0' || c = '1') <|> decimalInteger).keep intRange

/-- The exponent of a number. -/
def exponent : Scan Int := do
  discard (one fun c => c = 'e' || c = 'E')
  let negative ← sign
  let n := Decimal.natOfDigits (← digits Char.isDigit)
  return if negative then -n else n

/-- A number with a fraction or an exponent; it must not exceed the largest number. -/
def finiteFloat : Scan Float := do
  let negative ← sign
  let whole ← decimal
  let fraction ← (char '.' *> digits Char.isDigit) <|> pure []
  let scale ← if fraction = [] then exponent else exponent <|> pure 0
  let x := Decimal.Literal.double
    ⟨negative, Decimal.natOfDigits (whole ++ fraction), scale - fraction.length⟩
  if x == 1.0 / 0.0 then failure
  return x

/-- An infinity or NaN. -/
def specialFloat : Scan Float := do
  let negative ← sign
  let x : Float ← (word ['i', 'n', 'f'] *> pure (1.0 / 0.0)) <|>
    (word ['n', 'a', 'n'] *> pure (0.0 / 0.0))
  return if negative then -x else x

def float : Scan Float := finiteFloat <|> specialFloat

end Patchbay.Toml
