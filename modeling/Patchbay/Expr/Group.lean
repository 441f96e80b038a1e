import Patchbay.Expr.Basic
import Patchbay.Expr.Token
/-!
# Grouping

From tokens to expressions.  Each level of parentheses collects its operands and its operators.
When the level ends, the tightest operator takes its two neighbours, the leftmost among equals,
until one expression is left.  So equal priorities group from the left, powers too.
-/

namespace Patchbay.Expr

/-- The operators of a chain, each with the operand on its right. -/
abbrev Links := List (Op × Expr)

/-- The place of the tightest operator, the leftmost among equals. -/
def tightest (links : Links) : Nat :=
  let top := (links.map (·.1.priority)).max?
  links.findIdx fun link => some link.1.priority = top

/-- Gives one operator its two neighbours. -/
def contract : Nat → Expr → Links → Expr × Links
  | _, x, [] => (x, [])
  | 0, x, (op, y) :: rest => (.binary op x y, rest)
  | place + 1, x, (op, y) :: rest =>
    let (y, rest) := contract place y rest
    (x, (op, y) :: rest)

theorem tightest_lt {links : Links} (h : links ≠ []) : tightest links < links.length := by
  obtain ⟨top, htop⟩ : ∃ top, (links.map (·.1.priority)).max? = some top := by
    cases links with
    | nil => exact absurd rfl h
    | cons link rest => exact ⟨_, rfl⟩
  obtain ⟨link, hmem, heq⟩ := List.mem_map.mp (List.max?_mem htop)
  exact List.findIdx_lt_length_of_exists ⟨link, hmem, by simp [htop, heq]⟩

theorem length_contract {place : Nat} {x : Expr} {links : Links} (h : place < links.length) :
    (contract place x links).2.length + 1 = links.length := by
  induction links generalizing place x with
  | nil => simp at h
  | cons link rest ih =>
      cases place with
      | zero => rfl
      | succ place =>
          simp only [contract, List.length_cons]
          rw [ih (by simpa using h)]

/-- Contracts a chain to one expression, tightest operator first. -/
def reduce (x : Expr) : Links → Expr
  | [] => x
  | link :: rest =>
    let next := contract (tightest (link :: rest)) x (link :: rest)
    reduce next.1 next.2
termination_by links => links.length
decreasing_by
  have := length_contract (x := x) (tightest_lt (List.cons_ne_nil link rest))
  omega

/-- What one level of parentheses has collected, in reading order. -/
structure Level where
  operands : List Expr := []
  ops : List Op := []

namespace Level

def push (level : Level) (operand : Expr) : Level :=
  { level with operands := level.operands ++ [operand] }

/-- The expression of a finished level: one operand more than operators. -/
def close (level : Level) : Except CompileError Expr :=
  match level.operands with
  | [] => .error .emptyGroup
  | x :: rest =>
    if rest.length = level.ops.length then .ok (reduce x (level.ops.zip rest))
    else .error .missingOperand

end Level

/-- Reads tokens inside `level`, which stands in the levels `outer`, innermost first. -/
def read (params : List String) : List Lexeme → Level → List Level → Except CompileError Expr
  | [], level, [] => level.close
  | [], _, _ :: _ => .error .unexpectedEnd
  | ⟨.opening, _⟩ :: rest, level, outer => read params rest {} (level :: outer)
  | ⟨.closing, offset⟩ :: _, _, [] => .error (.unbalancedParenthesis offset)
  | ⟨.closing, _⟩ :: rest, level, parent :: outer =>
    level.close.bind fun group => read params rest (parent.push group) outer
  | ⟨.number value, _⟩ :: rest, level, outer => read params rest (level.push (.number value)) outer
  | ⟨.name text, _⟩ :: rest, level, outer =>
    match params.idxOf? text with
    | some index => read params rest (level.push (.argument index)) outer
    | none => .error (.unknownIdentifier text)
  | ⟨.op op, _⟩ :: rest, level, outer =>
    if level.operands.length ≤ level.ops.length then .error .missingOperand
    else read params rest { level with ops := level.ops ++ [op] } outer

/-- The expression of a whole list of tokens over named parameters. -/
def ofTokens (params : List String) (tokens : List Lexeme) : Except CompileError Expr :=
  read params tokens {} []

end Patchbay.Expr
