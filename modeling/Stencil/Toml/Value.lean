import Stencil.Decimal.Shortest
import Stencil.Named
import Stencil.Toml.Datetime

/-!
# Values of a document

A value is a scalar, an array of values or a table of named ones. A value that is read has the
entries of its tables in the order of the document; in settled data they are in the order of their
names.
-/

namespace Stencil.Toml

/-- A value. -/
inductive Value where
  | string (s : String)
  | integer (n : Int)
  | float (x : Binary64)
  | boolean (b : Bool)
  | datetime (d : Datetime)
  | array (items : List Value)
  | table (entries : List (String × Value))
  deriving Repr, Inhabited

/-- The entries of a table. -/
abbrev Table := List (String × Value)

namespace Table

/-- Puts an entry before the first one with a greater name. -/
def insert (entry : String × Value) : Table → Table
  | [] => [entry]
  | e :: rest => if entry.1 ≤ e.1 then entry :: e :: rest else e :: insert entry rest

/-- The entries in the order of their names. -/
def ofEntries (entries : List (String × Value)) : Table := entries.foldr insert []

end Table

namespace Value

/-- The name of the kind of value. -/
def typeName : Value → String
  | .string _ => "string"
  | .integer _ => "integer"
  | .float _ => "float"
  | .boolean _ => "boolean"
  | .datetime _ => "datetime"
  | .array _ => "array"
  | .table _ => "table"

end Value

end Stencil.Toml
