/-!
# Blanks

White space in the sense of the character standard, taken off both ends of a text or out of all of
it.
-/

namespace Patchbay.Text

/-- Whether a character is white space. -/
def isBlank (c : Char) : Bool :=
  let n := c.toNat
  (0x9 ≤ n && n ≤ 0xd) || n = 0x20 || n = 0x85 || n = 0xa0 || n = 0x1680
    || (0x2000 ≤ n && n ≤ 0x200a) || n = 0x2028 || n = 0x2029 || n = 0x202f || n = 0x205f
    || n = 0x3000

/-- Characters without the blanks at their ends. -/
def trimList (cs : List Char) : List Char :=
  ((cs.dropWhile isBlank).reverse.dropWhile isBlank).reverse

/-- A text without the blanks at its ends. -/
def trim (s : String) : String := .ofList (trimList s.toList)

/-- Characters without any blank. -/
def dropBlanks (cs : List Char) : List Char := cs.filter (!isBlank ·)

/-- Trimmed and in lower case, for words that may be written in any case. -/
def fold (s : String) : String := .ofList ((trimList s.toList).map Char.toLower)

end Patchbay.Text
