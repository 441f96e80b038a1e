import Patchbay.Toml.Layout
/-!
# Strings

Strings in double quotes, with escapes, and in single quotes, without; either kind may span lines
when its quotes are tripled.
-/

namespace Patchbay.Toml

open Scan

/-- The value of a digit to bases up to sixteen. -/
def digitValue (c : Char) : Nat :=
  if c.isDigit then c.toNat - '0'.toNat else c.toLower.toNat - 'a'.toNat + 10

def isHexDigit (c : Char) : Bool := c.isDigit || (let l := c.toLower; 'a' ≤ l && l ≤ 'f')

/-- The number of digits to a base. -/
def natOfBase (base : Nat) (cs : List Char) : Nat :=
  cs.foldl (fun n c => base * n + digitValue c) 0

/-- A character by its number, in so many digits. -/
def numbered (places : Nat) : Scan Char :=
  (exactly isHexDigit places).keep fun digits =>
    let n := natOfBase 16 digits
    if n.isValidChar then some (.ofNat n) else none

/-- A character after a backslash. -/
def escaped : Scan Char := do
  char '\\'
  match ← one fun _ => true with
  | 'b' => return '\x08'
  | 't' => return '\t'
  | 'n' => return '\n'
  | 'f' => return '\x0c'
  | 'r' => return '\r'
  | '"' => return '"'
  | '\\' => return '\\'
  | 'u' => numbered 4
  | 'U' => numbered 8
  | _ => failure

/-- A character that stands for itself between double quotes. -/
def plainChar : Scan Char := one fun c => isVisible c && c ≠ '"' && c ≠ '\\'

/-- A character that stands for itself between single quotes. -/
def literalChar : Scan Char := one fun c => isVisible c && c ≠ '\''

/-- A string on one line. -/
def inLine (quote : Char) (piece : Scan Char) : Scan String := do
  char quote
  let cs ← many piece
  char quote
  return .ofList cs

/-- One or two quotes with something after them. -/
def quotesBefore (quote : Char) (after : Scan Unit) : Scan (List Char) :=
  (do word [quote, quote]; ahead after; return [quote, quote])
    <|> (do char quote; ahead after; return [quote])

/-- A string between tripled quotes.  A line break right after the opening does not count, and up
to two quotes may stand right before the closing. -/
def acrossLines (quote : Char) (piece : Scan (List Char)) : Scan String := do
  let triple := word [quote, quote, quote]
  triple
  discard (optional lineBreak)
  let body ← many (piece <|> quotesBefore quote (discard piece))
  let last ← quotesBefore quote triple <|> pure []
  triple
  return .ofList (body.flatten ++ last)

/-- A backslash at the end of a line, which swallows the blanks up to the next text. -/
def lineJoin : Scan Unit := do
  char '\\'
  gap
  lineBreak
  breaks

/-- A piece of a string with escapes that may span lines. -/
def richPiece : Scan (List Char) :=
  (return [← plainChar]) <|> (lineJoin *> pure []) <|> (return [← escaped])
    <|> (lineBreak *> pure ['\n'])

/-- A piece of a string without escapes that may span lines. -/
def literalPiece : Scan (List Char) := (return [← literalChar]) <|> (lineBreak *> pure ['\n'])

/-- A string on one line, of either kind. -/
def lineString : Scan String := inLine '"' (plainChar <|> escaped) <|> inLine '\'' literalChar

def quotedString : Scan String :=
  acrossLines '"' richPiece <|> acrossLines '\'' literalPiece <|> lineString

end Patchbay.Toml
