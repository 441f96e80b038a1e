import Patchbay.Toml.Scan
/-!
# Blanks, comments and line ends

What may stand between the values of a document.
-/

namespace Patchbay.Toml

open Scan

/-- Whether a character may stand in a comment. -/
def isVisible (c : Char) : Bool :=
  let n := c.toNat
  n = 9 || (0x20 ≤ n && n ≤ 0x7e) || 0x80 ≤ n

def isGap (c : Char) : Bool := c = ' ' || c = '\t'

/-- Blanks within a line. -/
def gap : Scan Unit := discard (run isGap)

/-- A line break. -/
def lineBreak : Scan Unit := char '\n' <|> word ['\r', '\n']

def comment : Scan Unit := do
  char '#'
  discard (run isVisible)

/-- The end of a line, after blanks and perhaps a comment. -/
def lineEnd : Scan Unit := do
  gap
  discard (optional comment)
  lineBreak <|> finish

/-- Blanks and line breaks. -/
def breaks : Scan Unit := discard (many (discard (some1 isGap) <|> lineBreak))

/-- Blanks, line breaks and comments. -/
def spacing : Scan Unit :=
  discard (many (discard (some1 isGap) <|> lineBreak <|> (comment *> lineBreak)))

end Patchbay.Toml
