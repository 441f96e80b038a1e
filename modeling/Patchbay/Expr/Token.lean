import Patchbay.Decimal.Literal
import Patchbay.Expr.Error
import Patchbay.Expr.Op
/-!
# Tokens

The words of an expression without blanks.  A sign in front of a number belongs to it only where an
operand is due, so that `a*-2` multiplies by a negative number and `a-2` subtracts.

A text is cut before it is read: `cut` finds the characters of the next token, `Token.ofText` says
which token they are.
-/

namespace Patchbay

inductive Token
  | number (value : Float32)
  | name (text : String)
  | op (op : Op)
  | opening
  | closing
deriving DecidableEq

/-- A token and the place of its first byte. -/
structure Lexeme where
  token : Token
  offset : Nat
deriving DecidableEq

namespace Token

/-- Whether an operand is due after this token. -/
def wantsOperand : Token → Bool
  | op _ | opening => true
  | _ => false

/-! ## Cutting -/

def isNamePart (c : Char) : Bool := c.isAlphanum || c = '_'

/-- The name at the front: a letter, then letters, digits and underscores. -/
def cutName : List Char → List Char
  | [] => []
  | c :: rest => if c.isAlpha then c :: rest.takeWhile isNamePart else []

/-- Whether a whole text is a name. -/
def isName (cs : List Char) : Bool := cs ≠ [] && cutName cs = cs

/-- A number starts with a digit, or with a point and a digit. -/
def startsNumber : List Char → Bool
  | '.' :: c :: _ => c.isDigit
  | c :: _ => c.isDigit
  | [] => false

/-- The exponent at the front; a letter without digits is none. -/
def cutExponent : List Char → List Char
  | [] => []
  | c :: rest =>
    let (sign, rest) : List Char × List Char :=
      match rest with
      | s :: digits => if s = '+' ∨ s = '-' then ([s], digits) else ([], rest)
      | [] => ([], [])
    let digits := rest.takeWhile Char.isDigit
    if (c = 'e' ∨ c = 'E') ∧ digits ≠ [] then c :: sign ++ digits else []

/-- The digits at the front, with a point and the digits after it. -/
def cutDigits (cs : List Char) : List Char :=
  let whole := cs.takeWhile Char.isDigit
  match cs.dropWhile Char.isDigit with
  | '.' :: rest => whole ++ '.' :: rest.takeWhile Char.isDigit
  | _ => whole

/-- The unsigned number at the front. -/
def cutNumber (cs : List Char) : List Char :=
  let digits := cutDigits cs
  digits ++ cutExponent (cs.drop digits.length)

/-- The characters of the token at the front, or none if no token starts there. -/
def cut (operand : Bool) : List Char → List Char
  | [] => []
  | c :: rest =>
    if c = '(' ∨ c = ')' then [c]
    else if (c = '+' ∨ c = '-') ∧ operand ∧ startsNumber rest then c :: cutNumber rest
    else if startsNumber (c :: rest) then cutNumber (c :: rest)
    else if c.isAlpha then cutName (c :: rest)
    else if (Op.ofSymbol? c).isSome then [c]
    else []

/-! ## Reading -/

/-- A name or a number, told by the first character. -/
def word (cs : List Char) : Except CompileError Token :=
  if cs.head?.any Char.isAlpha then .ok (name (.ofList cs))
  else
    match Decimal.Literal.read cs with
    | some literal => .ok (number literal.single)
    | none => .error (.invalidNumber (.ofList cs))

/-- The token that a cut text is. -/
def ofText : List Char → Except CompileError Token
  | ['('] => .ok opening
  | [')'] => .ok closing
  | [c] =>
    match Op.ofSymbol? c with
    | some o => .ok (op o)
    | none => word [c]
  | cs => word cs

/-- The tokens of a text whose first byte is at `offset`.  All tokens are ASCII, so a character is a
byte. -/
def scanFrom (offset : Nat) (operand : Bool) (cs : List Char) :
    Except CompileError (List Lexeme) :=
  match _h : cut operand cs with
  | [] => if cs = [] then .ok [] else .error (.unknownToken offset (.ofList cs))
  | c :: text => do
    let token ← ofText (c :: text)
    let rest ← scanFrom (offset + (c :: text).length) token.wantsOperand
      (cs.drop (c :: text).length)
    return ⟨token, offset⟩ :: rest
termination_by cs.length
decreasing_by
  cases cs with
  | nil => simp [cut] at _h
  | cons d rest =>
    simp only [List.length_drop, List.length_cons]
    omega

/-- The tokens of a text. -/
def scan (cs : List Char) : Except CompileError (List Lexeme) := scanFrom 0 true cs

end Token

end Patchbay
