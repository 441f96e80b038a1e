import Patchbay.Text.Quoted
/-!
# Faults in function definitions

Everything that can be wrong with the text of a function.  A function that compiles cannot fail when
it is called.
-/

namespace Patchbay

inductive CompileError
  | malformedFunction (source : String)
  | invalidParameter (name : String)
  | duplicateParameter (name : String)
  | parameterCount (expected found : Nat)
  | unsupportedArity (arity : Nat)
  | unknownToken (offset : Nat) (rest : String)
  | unknownIdentifier (name : String)
  | invalidNumber (text : String)
  | emptyGroup
  | missingOperand
  | unbalancedParenthesis (offset : Nat)
  | unexpectedEnd
deriving DecidableEq, Repr

open Text (between)

def CompileError.message : CompileError → String
  | malformedFunction source => s!"script did not look like a function: {between source}"
  | invalidParameter name => s!"invalid parameter name: {between name}"
  | duplicateParameter name => s!"parameter {between name} is declared twice"
  | parameterCount expected found =>
    s!"expected function to have {expected} parameter(s), found {found}"
  | unsupportedArity arity => s!"functions of {arity} parameters are not supported (at most 3)"
  | unknownToken offset rest => s!"unexpected token at {offset}: {between rest}"
  | unknownIdentifier name => s!"unknown identifier {between name}"
  | invalidNumber text => s!"invalid number literal {between text}"
  | emptyGroup => "cannot have empty brackets"
  | missingOperand => "must provide an operand on either side of an operation"
  | unbalancedParenthesis offset => s!"unbalanced parenthesis at {offset}"
  | unexpectedEnd => "unexpected end of script"

end Patchbay
