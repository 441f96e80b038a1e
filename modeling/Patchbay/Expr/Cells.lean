import Patchbay.Expr.Function
/-!
# Functions at work

A compiled function keeps a cell for each of its parameters.  A call writes its arguments into the
cells and then walks the body, which finds them there.
-/

namespace Patchbay

/-- The value over what is in the cells; there is none if the expression refers to a cell that is
not there. -/
def Expr.evalIn? (cells : List Float32) : Expr → Option Float32
  | number value => some value
  | argument index => cells[index]?
  | binary op lhs rhs => do return op.apply (← lhs.evalIn? cells) (← rhs.evalIn? cells)

/-- A function and its cells. -/
structure Callable where
  function : Function
  cells : Vector Float32 function.arity := .replicate _ 0.0

namespace Callable

/-- Writes arguments into the cells, in order.  A cell that no argument is left for keeps what it
holds. -/
def load (c : Callable) (args : List Float32) : Callable :=
  { c with cells := c.cells.mapIdx fun i old => args.getD i old }

/-- The value on a list of arguments, which stay in the cells. -/
def call (c : Callable) (args : List Float32) : Option Float32 × Callable :=
  let c := c.load args
  (c.function.body.evalIn? c.cells.toList, c)

end Callable

/-- A call of one of several functions. -/
structure Call where
  /-- The place of the function among the others. -/
  place : Nat
  args : List Float32

namespace Call

/-- The answer to a call, and the functions after it.  There is no answer at a place without a
function. -/
def answer (k : Call) (functions : List Callable) : Option Float32 × List Callable :=
  match functions[k.place]? with
  | none => (none, functions)
  | some c =>
    let (value, c) := c.call k.args
    (value, functions.set k.place c)

/-- The answers to calls, one after another. -/
def answers : List Call → List Callable → List (Option Float32) × List Callable
  | [], functions => ([], functions)
  | k :: rest, functions =>
    let (value, functions) := k.answer functions
    let (values, functions) := answers rest functions
    (value :: values, functions)

end Call

end Patchbay
