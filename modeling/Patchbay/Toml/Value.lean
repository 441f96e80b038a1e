import Patchbay.Toml.DateTime
/-!
# Document values

What a document holds.  A table keeps its keys in order, and no key twice.
-/

namespace Patchbay.Toml

inductive Value
  | string (s : String)
  | integer (n : Int)
  | float (x : Float)
  | boolean (b : Bool)
  | dateTime (t : DateTime)
  | array (items : List Value)
  | table (entries : List (String × Value))

/-- The type of a value in words. -/
def Value.kind : Value → String
  | string _ => "string"
  | integer _ => "integer"
  | float _ => "float"
  | boolean _ => "boolean"
  | dateTime _ => "datetime"
  | array _ => "array"
  | table _ => "table"

/-- A key of several parts leads through tables to an entry of the last one. -/
structure Key where
  path : List String
  last : String
deriving DecidableEq, Repr

/-- A key and the value that it is given. -/
abbrev Pair := Key × Value

end Patchbay.Toml
