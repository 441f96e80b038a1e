import Patchbay.Decimal.Text
/-!
# Durations

Spans of time as whole nanoseconds, and their conversion to and from seconds.
-/

namespace Patchbay.Duration

/-- Nanoseconds in a second. -/
def second : Nat := 1000000000

/-- The longest span: the seconds fit in 64 bits. -/
def longest : Nat := UInt64.size * second - 1

/-- `num / den` rounded to the nearest integer; a half goes to the even neighbour. -/
def roundEven (num den : Nat) : Nat :=
  let q := num / den
  let r := num % den
  if den < 2 * r ∨ (2 * r = den ∧ q % 2 = 1) then q + 1 else q

/-- The span nearest to a number of seconds, unless the number is negative, too large or none. -/
def ofSeconds? (x : Float32) : Option Nat :=
  match Single.view x with
  | .zero _ => some 0
  | .finite .positive m e _ =>
    if m <<< e.toNat < UInt64.size <<< (-e).toNat then
      some (roundEven ((m <<< e.toNat) * second) (1 <<< (-e).toNat))
    else none
  | _ => none

/-- Seconds in single precision: whole seconds and the rest are rounded apart, then added. -/
def seconds (span : Nat) : Float32 :=
  Single.ofInt (span / second : Nat) + Single.ofInt (span % second : Nat) / 1e9

/-- A whole number and a fraction of so many places, without trailing zeros. -/
def pointedShort (whole fraction places : Nat) : String :=
  let digits := (Decimal.pointed fraction places).drop 2
  let kept := (digits.reverse.dropWhile (· = '0')).reverse
  toString whole ++ .ofList (if kept = [] then [] else '.' :: kept)

/-- A span in the largest unit that it fills, to the nanosecond. -/
def text (span : Nat) : String :=
  if second ≤ span then pointedShort (span / second) (span % second) 9 ++ "s"
  else if 1000000 ≤ span then pointedShort (span / 1000000) (span % 1000000) 6 ++ "ms"
  else if 1000 ≤ span then pointedShort (span / 1000) (span % 1000) 3 ++ "µs"
  else toString span ++ "ns"

end Patchbay.Duration
