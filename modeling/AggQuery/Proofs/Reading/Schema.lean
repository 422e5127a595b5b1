import AggQuery.Query.Document
import AggQuery.Reading.Slots

/-!
# Layouts of query documents

The same query can be written in many ways: the fields of an object may come in any order
and under any of their names, a field with its default may be left out, and keys that the
object does not know may stand anywhere. `ObjectRole.schema` is the table of names and
defaults, and `Relaid` is one change of the layout at any depth.

## Implementation notes

What a part of a document may be changed to depends on what it is read as, its `Role`. In
particular the object that names the variant of an expression has a single key, which is
none of the named fields meant here.
-/

namespace AggQuery

/-- What an object with named fields is read as. The last three are the payloads of
expressions. -/
inductive ObjectRole where
  | query | sortField | call | binary | unary
deriving DecidableEq, Inhabited, Repr

/-- What a part of a query document is read as. The values of a scalar have one layout. -/
inductive Role where
  | object (role : ObjectRole)
  | list (element : Role)
  | optional (role : Role)
  | expr
  | scalar
deriving Inhabited, Repr

/-- A field: all its names, its default and what its value is read as. -/
structure FieldSchema where
  names : List String
  default? : Option Document := none
  role : Role := .scalar
deriving Inhabited, Repr

/-- The fields of a query. -/
def QueryField.schema : QueryField → FieldSchema
  | .offset => { names := ["offset"], default? := some (.ofInt 0) }
  | .limit => { names := ["limit"], default? := some (.ofInt 0) }
  | .sortFields => {
      names := ["sort_fields", "sort"]
      default? := some (.array [])
      role := .list (.object .sortField) }
  | .filterCondition => {
      names := ["filter_condition", "condition", "filter"]
      default? := some .null
      role := .optional .expr }
  | .dimensions => {
      names := ["dimensions", "group_by"]
      default? := some (.array [])
      role := .list .expr }
  | .fields => {
      names := ["fields", "select"]
      default? := some (.array [])
      role := .list .expr }

/-- The fields of a sort criterion. -/
def SortKey.schema : SortKey → FieldSchema
  | .name => { names := ["name"] }
  | .ascending => { names := ["ascending"], default? := some (.boolean true) }

/-- The fields of a call. -/
def CallKey.schema : CallKey → FieldSchema
  | .name => { names := ["name"] }
  | .args => { names := ["args"], default? := some (.array []), role := .list .expr }

/-- The fields of an operation with two operands. -/
def BinaryKey.schema : BinaryKey → FieldSchema
  | .op => { names := ["op"] }
  | .lhs => { names := ["lhs"], role := .expr }
  | .rhs => { names := ["rhs"], role := .expr }

/-- The fields of an operation with one operand. -/
def UnaryKey.schema : UnaryKey → FieldSchema
  | .op => { names := ["op"] }
  | .expr => { names := ["expr"], role := .expr }

/-- The fields of an object, in the order of its array form. -/
def ObjectRole.schema : ObjectRole → List FieldSchema
  | .query =>
    [.offset, .limit, .sortFields, .filterCondition, .dimensions, .fields].map QueryField.schema
  | .sortField => [.name, .ascending].map SortKey.schema
  | .call => [.name, .args].map CallKey.schema
  | .binary => [.op, .lhs, .rhs].map BinaryKey.schema
  | .unary => [.op, .expr].map UnaryKey.schema

/-- The variants of an expression whose payload is an object with named fields. -/
def ObjectRole.variants : List (String × ObjectRole) :=
  [("call", .call), ("binary", .binary), ("unary", .unary)]

/-- One change of the layout of a document that is read as `role`. -/
inductive Relaid : Role → Document → Document → Prop
  /-- The fields of an object come in another order. -/
  | permuted {role : ObjectRole} {fields others : Fields} (h : fields.Perm others) :
      Relaid (.object role) (.object fields) (.object others)
  /-- A field is given under another of its names. -/
  | renamed {role : ObjectRole} {field : FieldSchema} {key other : String} {value : Document}
      (hfield : field ∈ role.schema) (hkey : key ∈ field.names) (hother : other ∈ field.names)
      (before after : Fields) :
      Relaid (.object role) (.object (before ++ (key, value) :: after))
        (.object (before ++ (other, value) :: after))
  /-- A key that names no field is left out. -/
  | unknown {role : ObjectRole} {key : String} {value : Document}
      (hkey : ∀ field ∈ role.schema, key ∉ field.names) (before after : Fields) :
      Relaid (.object role) (.object (before ++ (key, value) :: after))
        (.object (before ++ after))
  /-- A field with its default is left out; no other key gives it. -/
  | omitted {role : ObjectRole} {field : FieldSchema} {key : String} {value : Document}
      (hfield : field ∈ role.schema) (hkey : key ∈ field.names)
      (hvalue : field.default? = some value) (before after : Fields)
      (hother : ∀ entry ∈ before ++ after, entry.1 ∉ field.names) :
      Relaid (.object role) (.object (before ++ (key, value) :: after))
        (.object (before ++ after))
  /-- The layout changes within the value of a field. -/
  | field {role : ObjectRole} {field : FieldSchema} {key : String} {value other : Document}
      (hfield : field ∈ role.schema) (hkey : key ∈ field.names)
      (h : Relaid field.role value other) (before after : Fields) :
      Relaid (.object role) (.object (before ++ (key, value) :: after))
        (.object (before ++ (key, other) :: after))
  /-- The layout changes within a field of a query that is written as an array. -/
  | element {field : FieldSchema} {value other : Document} {before : List Document}
      (hfield : ObjectRole.query.schema[before.length]? = some field)
      (h : Relaid field.role value other) (after : List Document) :
      Relaid (.object .query) (.array (before ++ value :: after))
        (.array (before ++ other :: after))
  /-- The layout changes within an item of a list. -/
  | item {role : Role} {value other : Document} (h : Relaid role value other)
      (before after : List Document) :
      Relaid (.list role) (.array (before ++ value :: after)) (.array (before ++ other :: after))
  /-- The layout changes within a value that may be missing. -/
  | optional {role : Role} {value other : Document} (h : Relaid role value other) :
      Relaid (.optional role) value other
  /-- The layout of a payload changes. -/
  | payload {name : String} {role : ObjectRole} {value other : Document}
      (hname : (name, role) ∈ ObjectRole.variants) (h : Relaid (.object role) value other) :
      Relaid .expr (.object [(name, value)]) (.object [(name, other)])
  /-- The layout changes within parentheses. -/
  | paren {value other : Document} (h : Relaid .expr value other) :
      Relaid .expr (.object [("paren", value)]) (.object [("paren", other)])

end AggQuery
