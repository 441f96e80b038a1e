/-!
# Operators

The five operators of an expression, each with its sign and how tightly it binds.
-/

namespace Patchbay

inductive Op
  | add
  | sub
  | mul
  | div
  | pow
deriving DecidableEq, Repr

namespace Op

def symbol : Op → Char
  | add => '+'
  | sub => '-'
  | mul => '*'
  | div => '/'
  | pow => '^'

def ofSymbol? : Char → Option Op
  | '+' => some add
  | '-' => some sub
  | '*' => some mul
  | '/' => some div
  | '^' => some pow
  | _ => none

/-- A higher number binds tighter. -/
def priority : Op → Nat
  | add | sub => 1
  | mul | div => 2
  | pow => 3

def apply : Op → Float32 → Float32 → Float32
  | add, x, y => x + y
  | sub, x, y => x - y
  | mul, x, y => x * y
  | div, x, y => x / y
  | pow, x, y => x.pow y

@[simp] theorem ofSymbol?_symbol (op : Op) : ofSymbol? op.symbol = some op := by
  cases op <;> rfl

theorem ofSymbol?_eq_some_iff {c : Char} {op : Op} : ofSymbol? c = some op ↔ op.symbol = c := by
  constructor
  · intro h
    unfold ofSymbol? at h
    split at h <;> simp_all <;> subst h <;> rfl
  · rintro rfl
    exact ofSymbol?_symbol op

end Op

end Patchbay
