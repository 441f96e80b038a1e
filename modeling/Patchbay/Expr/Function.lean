import Patchbay.Expr.Group
import Patchbay.Note
import Patchbay.Text.Blank
import Patchbay.Text.Fields
/-!
# Functions

Compiling a definition such as `(x, y) { x * y + 0.5 }`: the blanks go, then parameters and body are
separated, then the body becomes an expression over the parameters.
-/

namespace Patchbay

/-- A compiled function; `source` is its definition without blanks. -/
structure Function where
  arity : Nat
  source : String
  body : Expr
deriving DecidableEq

namespace Function

/-- The most parameters that a function may have. -/
def maxArity : Nat := 3

/-- Adds parameter names in order; each must be a name, and a new one. -/
def declare (declared : List String) : List (List Char) → Except CompileError (List String)
  | [] => .ok declared
  | cs :: rest =>
    let name := String.ofList cs
    if !Token.isName cs then .error (.invalidParameter name)
    else if name ∈ declared then .error (.duplicateParameter name)
    else declare (declared ++ [name]) rest

/-- The parameters of a list between parentheses, which may be empty. -/
def parameters (list : List Char) : Except CompileError (List String) :=
  if list = [] then .ok [] else declare [] (Text.fields ',' list)

/-- Cuts `(parameters){body}` into parameters and body; the body must not be empty. -/
def cutDefinition : List Char → Option (List Char × List Char)
  | '(' :: rest => do
    let (list, rest) ← Text.cutAt ')' rest
    match rest with
    | '{' :: rest =>
      if rest.getLast? = some '}' ∧ rest.dropLast ≠ [] then some (list, rest.dropLast) else none
    | _ => none
  | _ => none

/-- Compiles a definition as a function of exactly `arity` parameters. -/
def compile (arity : Nat) (definition : String) : Except CompileError Function :=
  let source := Text.dropBlanks definition.toList
  if arity > maxArity then .error (.unsupportedArity arity)
  else
    match cutDefinition source with
    | none => .error (.malformedFunction (.ofList source))
    | some (list, body) => do
      let params ← parameters list
      if params.length ≠ arity then throw (.parameterCount arity params.length)
      let tokens ← Token.scan body
      let body ← Expr.ofTokens params tokens
      return ⟨arity, .ofList source, body⟩

/-- The value on a list of arguments. -/
def call (f : Function) (args : List Float32) : Float32 := f.body.eval args

/-- What is noted when a function has been compiled. -/
def note (f : Function) : Note :=
  ⟨.debug, s!"Compiled {Text.between f.source} into {f.body.text}"⟩

/-- The parts of a function, for inspection. -/
def describe (f : Function) : String :=
  s!"CompiledExpression \x7b arity: {f.arity}, source: {Text.quoted f.source}, "
    ++ s!"tree: {Text.quoted f.body.text} \x7d"

end Function

end Patchbay
