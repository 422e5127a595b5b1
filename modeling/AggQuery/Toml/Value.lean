import AggQuery.Number.Binary64

/-!
# Settings values

A settings text is a table of values. A table remembers how it came about, because that
decides whether a later line may add to it: a table with a header of its own, a table that
only a longer header or a dotted key has brought about, or a table in braces.
-/

namespace AggQuery.Toml

/-- How a table came about. -/
structure Origin where
  /-- It has no header of its own. -/
  implicit : Bool := false
  /-- Dotted keys have brought it about. -/
  dotted : Bool := false
  /-- It stands in braces. -/
  inline : Bool := false
deriving DecidableEq, Inhabited, Repr

/-- A value of a settings text. -/
inductive Value where
  | string (text : List Char)
  | integer (n : Int)
  | float (x : Binary64)
  | boolean (b : Bool)
  | dateTime
  | array (items : List Value)
  | table (origin : Origin) (entries : List (List Char × Value))
  | tables (elements : List Value)
deriving Inhabited, Repr

/-- The entries of a table in order. -/
abbrev Entries := List (List Char × Value)

namespace Value

/-- The name of a value's type in messages. -/
def typeName : Value → String
  | .string _ => "string"
  | .integer _ => "integer"
  | .float _ => "float"
  | .boolean _ => "boolean"
  | .dateTime => "datetime"
  | .array _ => "array"
  | .table origin _ => if origin.inline then "inline table" else "table"
  | .tables _ => "array of tables"

end Value

namespace Entries

/-- Give a key a value: in place where the key is present, at the end otherwise. -/
def set (entries : Entries) (key : List Char) (value : Value) : Entries :=
  match entries with
  | [] => [(key, value)]
  | (k, old) :: rest => if k = key then (k, value) :: rest else (k, old) :: set rest key value

/-- The entries without a key. -/
def erase (entries : Entries) (key : List Char) : Entries :=
  entries.filter fun entry => entry.1 ≠ key

end Entries

end AggQuery.Toml
