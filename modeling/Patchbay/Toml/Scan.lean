/-!
# Scanning

Reading things off the front of a list of characters.  A scan that is refused leaves the characters
to the alternatives after it.
-/

namespace Patchbay.Toml

/-- Reads a value off the front of the characters, or refuses. -/
abbrev Scan := StateT (List Char) Option

namespace Scan

variable {α β : Type}

/-- One character of a class. -/
def one (p : Char → Bool) : Scan Char
  | c :: rest => if p c then some (c, rest) else none
  | [] => none

/-- One given character. -/
def char (c : Char) : Scan Unit := discard (one (· = c))

/-- Given characters. -/
def word : List Char → Scan Unit
  | [] => pure ()
  | c :: rest => do
    char c
    word rest

/-- Exactly so many characters of a class. -/
def exactly (p : Char → Bool) : Nat → Scan (List Char)
  | 0 => pure []
  | n + 1 => return (← one p) :: (← exactly p n)

/-- As many characters of a class as there are. -/
def run (p : Char → Bool) : Scan (List Char) := fun cs => some (cs.takeWhile p, cs.dropWhile p)

/-- At least one character of a class. -/
def some1 (p : Char → Bool) : Scan (List Char) := return (← one p) :: (← run p)

/-- Only at the end of the characters. -/
def finish : Scan Unit
  | [] => some ((), [])
  | _ => none

/-- Whether a scan would succeed here, without reading. -/
def ahead (p : Scan α) : Scan Unit := fun cs => (p cs).map fun _ => ((), cs)

/-- A value of `p` as often as it can be read, but at most so often. -/
def manyAtMost (p : Scan α) : Nat → Scan (List α)
  | 0 => pure []
  | n + 1 => (do return (← p) :: (← manyAtMost p n)) <|> pure []

/-- A value of `p` as often as it can be read; `p` reads at least a character each time. -/
def many (p : Scan α) : Scan (List α) := fun cs => manyAtMost p cs.length cs

/-- Values of `p` with a separator between any two. -/
def many1By (separator : Scan β) (p : Scan α) : Scan (List α) :=
  return (← p) :: (← many (separator *> p))

/-- Values of `p` with a separator between any two, or none at all. -/
def manyBy (separator : Scan β) (p : Scan α) : Scan (List α) := many1By separator p <|> pure []

/-- A value that passes a test. -/
def keep (test : α → Option β) (p : Scan α) : Scan β := do StateT.lift (test (← p))

end Scan

end Patchbay.Toml
