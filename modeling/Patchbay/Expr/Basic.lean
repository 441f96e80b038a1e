import Patchbay.Decimal.Text
import Patchbay.Expr.Op
/-!
# Expressions

Trees of numbers, arguments and operators.  An argument is a position in the list of values that the
expression is called with, never a name, so expressions share nothing.
-/

namespace Patchbay

inductive Expr
  | number (value : Float32)
  | argument (index : Nat)
  | binary (op : Op) (lhs rhs : Expr)
deriving DecidableEq

namespace Expr

/-- The value on a list of arguments. -/
def eval (args : List Float32) : Expr → Float32
  | number value => value
  | argument index => args.getD index 0.0
  | binary op lhs rhs => op.apply (lhs.eval args) (rhs.eval args)

/-- Every argument is one of the first `arity`. -/
def Within (arity : Nat) : Expr → Prop
  | number _ => True
  | argument index => index < arity
  | binary _ lhs rhs => lhs.Within arity ∧ rhs.Within arity

/-- The text of an expression, with every grouping in parentheses, over given texts of its
arguments. -/
def textWith (argument : Nat → String) : Expr → String
  | number value => Decimal.plain value
  | .argument index => argument index
  | binary op lhs rhs =>
    "(" ++ lhs.textWith argument ++ op.symbol.toString ++ rhs.textWith argument ++ ")"

/-- The text of an expression with numbered arguments. -/
def text (e : Expr) : String := e.textWith fun index => "$" ++ toString index

end Expr

end Patchbay
