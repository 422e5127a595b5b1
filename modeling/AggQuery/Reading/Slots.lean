import AggQuery.Query.Basic
import AggQuery.Reading.Error

/-!
# Fields of query documents

The objects of a query document have named fields, some with further names and some with a
default. For each object there is a type of field names, the reading of a key, and a record
of the values read so far, from which the object is completed.
-/

namespace AggQuery

/-- The fields of a query, in the order of its array form. -/
inductive QueryField where
  | offset | limit | sortFields | filterCondition | dimensions | fields
deriving DecidableEq, Inhabited, Repr

namespace QueryField

/-- The first name of a field. -/
def name : QueryField → String
  | .offset => "offset"
  | .limit => "limit"
  | .sortFields => "sort_fields"
  | .filterCondition => "filter_condition"
  | .dimensions => "dimensions"
  | .fields => "fields"

/-- All names of a field. -/
def keys : QueryField → List String
  | .offset => ["offset"]
  | .limit => ["limit"]
  | .sortFields => ["sort_fields", "sort"]
  | .filterCondition => ["filter_condition", "condition", "filter"]
  | .dimensions => ["dimensions", "group_by"]
  | .fields => ["fields", "select"]

/-- All fields in order. -/
def all : List QueryField :=
  [.offset, .limit, .sortFields, .filterCondition, .dimensions, .fields]

/-- The field that a key names. -/
def ofKey? (key : String) : Option QueryField := all.find? fun field => field.keys.contains key

end QueryField

/-- The values of a query read so far. -/
structure QuerySlots where
  offset : Option UInt64 := none
  limit : Option UInt64 := none
  sortFields : Option (List SortField) := none
  filterCondition : Option (Option Expr) := none
  dimensions : Option (List Expr) := none
  fields : Option (List Expr) := none
deriving Inhabited

namespace QuerySlots

/-- Whether a field has been read. -/
def filled (slots : QuerySlots) : QueryField → Bool
  | .offset => slots.offset.isSome
  | .limit => slots.limit.isSome
  | .sortFields => slots.sortFields.isSome
  | .filterCondition => slots.filterCondition.isSome
  | .dimensions => slots.dimensions.isSome
  | .fields => slots.fields.isSome

/-- The query; every field has a default. -/
def finish (slots : QuerySlots) : Query where
  offset := slots.offset.getD 0
  limit := slots.limit.getD 0
  sortFields := slots.sortFields.getD []
  filterCondition := slots.filterCondition.getD none
  dimensions := slots.dimensions.getD []
  fields := slots.fields.getD []

end QuerySlots

/-- The fields of a sort criterion. -/
inductive SortKey where
  | name | ascending
deriving DecidableEq, Inhabited, Repr

namespace SortKey

/-- The field that a key names. -/
def ofKey? (key : String) : Option SortKey :=
  match key with
  | "name" => some .name
  | "ascending" => some .ascending
  | _ => none

end SortKey

/-- The values of a sort criterion read so far. -/
structure SortSlots where
  name : Option String := none
  ascending : Option Bool := none
deriving Inhabited

namespace SortSlots

/-- The sort criterion; the direction is ascending by default. -/
def finish (slots : SortSlots) : Except ShapeError SortField :=
  match slots.name with
  | none => .error (.missingField "name")
  | some name => .ok { name, ascending := slots.ascending.getD true }

end SortSlots

/-- The fields of a call. -/
inductive CallKey where
  | name | args
deriving DecidableEq, Inhabited, Repr

namespace CallKey

/-- The field that a key names. -/
def ofKey? (key : String) : Option CallKey :=
  match key with
  | "name" => some .name
  | "args" => some .args
  | _ => none

end CallKey

/-- The values of a call read so far. -/
structure CallSlots where
  name : Option String := none
  args : Option (List Expr) := none
deriving Inhabited

namespace CallSlots

/-- The call; it has no arguments by default. -/
def finish (slots : CallSlots) : Except ShapeError Expr :=
  match slots.name with
  | none => .error (.missingField "name")
  | some name => .ok (.call name (slots.args.getD []))

end CallSlots

/-- The fields of an operation with two operands. -/
inductive BinaryKey where
  | op | lhs | rhs
deriving DecidableEq, Inhabited, Repr

namespace BinaryKey

/-- The field that a key names. -/
def ofKey? (key : String) : Option BinaryKey :=
  match key with
  | "op" => some .op
  | "lhs" => some .lhs
  | "rhs" => some .rhs
  | _ => none

end BinaryKey

/-- The values of an operation with two operands read so far. -/
structure BinarySlots where
  op : Option BinaryOp := none
  lhs : Option Expr := none
  rhs : Option Expr := none
deriving Inhabited

namespace BinarySlots

/-- The operation; no field has a default. -/
def finish (slots : BinarySlots) : Except ShapeError Expr :=
  match slots.op, slots.lhs, slots.rhs with
  | none, _, _ => .error (.missingField "op")
  | some _, none, _ => .error (.missingField "lhs")
  | some _, some _, none => .error (.missingField "rhs")
  | some op, some lhs, some rhs => .ok (.binary op lhs rhs)

end BinarySlots

/-- The fields of an operation with one operand. -/
inductive UnaryKey where
  | op | expr
deriving DecidableEq, Inhabited, Repr

namespace UnaryKey

/-- The field that a key names. -/
def ofKey? (key : String) : Option UnaryKey :=
  match key with
  | "op" => some .op
  | "expr" => some .expr
  | _ => none

end UnaryKey

/-- The values of an operation with one operand read so far. -/
structure UnarySlots where
  op : Option UnaryOp := none
  expr : Option Expr := none
deriving Inhabited

namespace UnarySlots

/-- The operation; no field has a default. -/
def finish (slots : UnarySlots) : Except ShapeError Expr :=
  match slots.op, slots.expr with
  | none, _ => .error (.missingField "op")
  | some _, none => .error (.missingField "expr")
  | some op, some expr => .ok (.unary op expr)

end UnarySlots

/-- The variants of an expression. -/
inductive ExprVariant where
  | field | literal | call | binary | unary | paren | wildcard
deriving DecidableEq, Inhabited, Repr

namespace ExprVariant

/-- All variants, in the order in which messages list them. -/
def all : List ExprVariant := [.field, .literal, .call, .binary, .unary, .paren, .wildcard]

/-- The name of a variant. -/
def name : ExprVariant → String
  | .field => "field"
  | .literal => "literal"
  | .call => "call"
  | .binary => "binary"
  | .unary => "unary"
  | .paren => "paren"
  | .wildcard => "wildcard"

/-- The variant with a name. -/
def ofName (name : String) : Except ShapeError ExprVariant :=
  match all.find? fun variant => variant.name == name with
  | some variant => .ok variant
  | none => .error (.unknownVariant name (all.map ExprVariant.name))

/-- The expression of a variant that is given without a payload. -/
def withoutPayload : ExprVariant → Except ShapeError Expr
  | .wildcard => .ok .wildcard
  | .call | .binary | .unary => .error (.invalidType .unitVariant "struct variant")
  | .field | .literal | .paren => .error (.invalidType .unitVariant "newtype variant")

end ExprVariant

/-- The variants of a constant. -/
inductive LiteralVariant where
  | string | integer | float | boolean | duration | null
deriving DecidableEq, Inhabited, Repr

namespace LiteralVariant

/-- All variants, in the order in which messages list them. -/
def all : List LiteralVariant := [.string, .integer, .float, .boolean, .duration, .null]

/-- The name of a variant. -/
def name : LiteralVariant → String
  | .string => "string"
  | .integer => "integer"
  | .float => "float"
  | .boolean => "boolean"
  | .duration => "duration"
  | .null => "null"

/-- The variant with a name. -/
def ofName (name : String) : Except ShapeError LiteralVariant :=
  match all.find? fun variant => variant.name == name with
  | some variant => .ok variant
  | none => .error (.unknownVariant name (all.map LiteralVariant.name))

/-- The constant of a variant that is given without a payload. -/
def withoutPayload : LiteralVariant → Except ShapeError Literal
  | .null => .ok .null
  | _ => .error (.invalidType .unitVariant "newtype variant")

end LiteralVariant

namespace BinaryOp

/-- The operator with a name. -/
def ofName (name : String) : Except ShapeError BinaryOp :=
  match ofName? name with
  | some op => .ok op
  | none => .error (.unknownVariant name (all.map BinaryOp.name))

end BinaryOp

namespace UnaryOp

/-- The operator with a name. -/
def ofName (name : String) : Except ShapeError UnaryOp :=
  match ofName? name with
  | some op => .ok op
  | none => .error (.unknownVariant name (all.map UnaryOp.name))

end UnaryOp

namespace Number

/-- A number as a count of 64 bits. -/
def toCount : Number → Except ShapeError UInt64
  | .integer n =>
    if 0 ≤ n ∧ n < UInt64.size then .ok (UInt64.ofNat n.toNat)
    else .error (.invalidValue (.integer n) "usize")
  | .float x => .error (.invalidType (.float x) "usize")

/-- A number as a signed integer of 64 bits. -/
def toInteger : Number → Except ShapeError Int64
  | .integer n =>
    if Int64.minValue.toInt ≤ n ∧ n ≤ Int64.maxValue.toInt then .ok (Int64.ofInt n)
    else .error (.invalidValue (.integer n) "i64")
  | .float x => .error (.invalidType (.float x) "i64")

/-- A number as a floating-point number; an integer goes to the nearest one. -/
def toFloat : Number → Binary64
  | .integer n => Binary64.ofInt n
  | .float x => x

end Number

end AggQuery
