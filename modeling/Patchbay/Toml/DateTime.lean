import Patchbay.Decimal.Text
import Patchbay.Toml.Number
/-!
# Dates and times

A date, a time of day, or both, and with both perhaps the offset from universal time.
-/

namespace Patchbay.Toml

open Scan

structure Date where
  year : Nat
  month : Nat
  day : Nat
deriving DecidableEq, Repr

structure Time where
  hour : Nat
  minute : Nat
  second : Nat
  nanosecond : Nat
deriving DecidableEq, Repr

/-- Minutes ahead of universal time; `none` for universal time itself. -/
abbrev Offset := Option Int

inductive DateTime
  | date (d : Date)
  | time (t : Time)
  | dateTime (d : Date) (t : Time) (offset : Option Offset)
deriving DecidableEq, Repr

/-! ## Writing -/

/-- A number in at least so many places. -/
def padded (places n : Nat) : List Char :=
  let digits := Decimal.digitsOf n
  List.replicate (places - digits.length) '0' ++ digits

def Date.text (d : Date) : List Char :=
  padded 4 d.year ++ '-' :: padded 2 d.month ++ '-' :: padded 2 d.day

def Time.text (t : Time) : List Char :=
  let fraction := ((padded 9 t.nanosecond).reverse.dropWhile (· = '0')).reverse
  padded 2 t.hour ++ ':' :: padded 2 t.minute ++ ':' :: padded 2 t.second
    ++ if fraction = [] then [] else '.' :: fraction

def Offset.text : Offset → List Char
  | none => ['Z']
  | some minutes =>
    (if minutes < 0 then '-' else '+') :: padded 2 (minutes.natAbs / 60)
      ++ ':' :: padded 2 (minutes.natAbs % 60)

/-- The one spelling of a date and time that is shown, whatever was written. -/
def DateTime.text : DateTime → String
  | date d => .ofList d.text
  | time t => .ofList t.text
  | dateTime d t offset =>
    .ofList (d.text ++ 'T' :: t.text ++ (offset.map Offset.text).getD [])

/-! ## Reading -/

/-- A number of so many digits, within bounds. -/
def field (places low high : Nat) : Scan Nat :=
  (exactly Char.isDigit places).keep fun digits =>
    let n := Decimal.natOfDigits digits
    if low ≤ n ∧ n ≤ high then some n else none

def isLeap (year : Nat) : Bool := year % 4 = 0 && (year % 100 ≠ 0 || year % 400 = 0)

def daysIn (year : Nat) : (month : Nat) → Nat
  | 2 => if isLeap year then 29 else 28
  | 4 | 6 | 9 | 11 => 30
  | _ => 31

def readDate : Scan Date := do
  let year ← field 4 0 9999
  char '-'
  let month ← field 2 1 12
  char '-'
  let day ← field 2 1 (daysIn year month)
  return ⟨year, month, day⟩

/-- Places after the ninth are cut off. -/
def readFraction : Scan Nat := do
  char '.'
  let digits ← some1 Char.isDigit
  return Decimal.natOfDigits ((digits ++ List.replicate 9 '0').take 9)

/-- A second of 60 is a leap second. -/
def readTime : Scan Time := do
  let hour ← field 2 0 23
  char ':'
  let minute ← field 2 0 59
  char ':'
  let second ← field 2 0 60
  let nanosecond ← readFraction <|> pure 0
  return ⟨hour, minute, second, nanosecond⟩

def readOffset : Scan Offset :=
  (do discard (one fun c => c = 'Z' || c = 'z'); return none)
    <|> (do
      let west ← (char '-' *> pure true) <|> (char '+' *> pure false)
      let hour ← field 2 0 23
      char ':'
      let minute ← field 2 0 59
      let minutes : Int := hour * 60 + minute
      return some (if west then -minutes else minutes))

def readDateTime : Scan DateTime :=
  (do
    let d ← readDate
    (do
      discard (one fun c => c = 'T' || c = 't' || c = ' ')
      let t ← readTime
      let offset ← optional readOffset
      return .dateTime d t offset) <|> pure (.date d))
    <|> (return .time (← readTime))

/-- The date or time that a whole text stands for. -/
def DateTime.ofText? (s : String) : Option DateTime :=
  (readDateTime <* finish).run' s.toList

end Patchbay.Toml
