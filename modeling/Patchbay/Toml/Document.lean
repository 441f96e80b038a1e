import Patchbay.Toml.Table
/-!
# Documents

A document is a list of lines, each with a pair, the header of a table, or nothing.  The pairs
before the first header belong to the document itself, later ones to the header before them.
-/

namespace Patchbay.Toml

open Scan

/-! ## Keys and values -/

def isBare (c : Char) : Bool :=
  c.isDigit || ('a' ≤ c && c ≤ 'z') || ('A' ≤ c && c ≤ 'Z') || c = '_' || c = '-'

def part : Scan String := lineString <|> (String.ofList <$> some1 isBare)

/-- How many parts a key, and how many brackets around a value, are too many. -/
def tooDeep : Nat := 80

def key : Scan Key :=
  (many1By (char '.') (gap *> part <* gap)).keep fun parts =>
    match parts.getLast? with
    | some last => if parts.length < tooDeep then some ⟨parts.dropLast, last⟩ else none
    | none => none

def scalar : Scan Value :=
  (Value.string <$> quotedString) <|> (Value.dateTime <$> readDateTime)
    <|> (Value.float <$> float) <|> (Value.integer <$> integer)
    <|> (word ['t', 'r', 'u', 'e'] *> pure (.boolean true))
    <|> (word ['f', 'a', 'l', 's', 'e'] *> pure (.boolean false))

/-- Values in brackets.  They may stand on several lines, and a comma may follow the last. -/
def array (value : Scan Value) : Scan Value := do
  char '['
  let items ← manyBy (char ',') (spacing *> value <* spacing)
  if !items.isEmpty then discard (optional (char ','))
  spacing
  char ']'
  return .array items

/-- A key and a value, on one line but for the value's own line breaks. -/
def pair (value : Scan Value) : Scan Pair := do
  let key ← key
  char '='
  gap
  return (key, ← value)

/-- Pairs in braces, on one line. -/
def inlineTable (value : Scan Value) : Scan Value := do
  char '\x7b'
  let pairs ← manyBy (char ',') (pair value <* gap)
  gap
  char '\x7d'
  let entries ← StateT.lift (Entries.addPairs [] pairs)
  return .table (finishEntries entries)

/-- A value with at most so many brackets around its parts. -/
def value : (depth : Nat) → Scan Value
  | 0 => scalar
  | depth + 1 => scalar <|> array (value depth) <|> inlineTable (value depth)

/-! ## Lines -/

inductive Line
  | empty
  | pair (p : Pair)
  | table (key : Key)
  | element (key : Key)

def line : Scan Line :=
  (do char '#'; discard (run isVisible); lineBreak <|> finish; return .empty)
    <|> (lineBreak *> pure .empty)
    <|> (.element <$> (word ['[', '['] *> key <* word [']', ']'] <* lineEnd))
    <|> (.table <$> (char '[' *> key <* char ']' <* lineEnd))
    <|> (.pair <$> (pair (value (tooDeep - 1)) <* lineEnd))

/-- The lines of a whole document; it may begin with a mark of its encoding. -/
def lines (cs : List Char) : Option (List Line) :=
  (do
    discard (optional (char '\ufeff'))
    gap
    let lines ← many (line <* gap)
    finish
    return lines : Scan (List Line)).run' cs

/-- The pairs up to the first header, and what each header begins. -/
structure Sections where
  first : List Pair := []
  /-- Whether a header names an element of a list, its key and its pairs. -/
  headed : List (Bool × Key × List Pair) := []

def Sections.ofLines : List Line → Sections
  | [] => {}
  | .empty :: rest => ofLines rest
  | .pair p :: rest => let s := ofLines rest; { s with first := p :: s.first }
  | .table key :: rest => let s := ofLines rest; ⟨[], (false, key, s.first) :: s.headed⟩
  | .element key :: rest => let s := ofLines rest; ⟨[], (true, key, s.first) :: s.headed⟩

/-- The entries of a document. -/
def Sections.build (s : Sections) : Option Entries := do
  let entries ← Entries.addPairs [] s.first
  s.headed.foldlM (fun entries (element, key, pairs) =>
    if element then entries.addElement key pairs else entries.addTable key pairs) entries

/-- Reads a document; `none` if it is malformed. -/
def read (text : String) : Option (List (String × Value)) := do
  let lines ← lines text.toList
  return finishEntries (← (Sections.ofLines lines).build)

end Patchbay.Toml
