import Patchbay.Text.Quoted
/-!
# Text for a terminal

Text with the controls spelled out that can begin a command to a terminal or move its cursor back,
so that no text acts on the terminal that shows it.  Line breaks and tabs stay.
-/

namespace Patchbay.Text

/-- The controls below 128 that are spelled out: bell, backspace, form feed, escape and delete. -/
def actingControls : List Char := ['\x07', '\x08', '\x0c', '\x1b', '\x7f']

/-- Whether a character is one of the controls of the second set. -/
def isSecondControl (c : Char) : Bool := 0x80 ≤ c.toNat && c.toNat ≤ 0x9f

/-- A character by its number in two digits. -/
def numberedShort (c : Char) : List Char :=
  let digits := Nat.toDigits 16 c.toNat
  '\\' :: 'x' :: List.replicate (2 - digits.length) '0' ++ digits

/-- One character for a terminal. -/
def spell (c : Char) : List Char :=
  if c ∈ actingControls then numberedShort c
  else if isSecondControl c then numbered c
  else [c]

/-- A text for a terminal. -/
def forTerminal (s : String) : String := .ofList (s.toList.flatMap spell)

end Patchbay.Text
