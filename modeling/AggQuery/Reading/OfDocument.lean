import AggQuery.Document.Basic
import AggQuery.Reading.Slots

/-!
# Queries from documents

Queries, sort criteria and expressions are read from documents. An object may be written as
an array of its fields in order, except for the payload of an expression variant. Unknown
keys are ignored, and a field given twice, under whatever names, is an error.

## Implementation notes

All readers recurse on the document. Those for objects take the keys in order and carry the
values read so far.
-/

namespace AggQuery

namespace Document

/-- A document that must be a string. -/
def toText : Document → Except ShapeError String
  | .string s => .ok s
  | d => .error (.invalidType d.found "a string")

/-- A document that must be a truth value. -/
def toBoolean : Document → Except ShapeError Bool
  | .boolean b => .ok b
  | d => .error (.invalidType d.found "a boolean")

/-- A document that must be a count. -/
def toCount : Document → Except ShapeError UInt64
  | .number n => n.toCount
  | d => .error (.invalidType d.found "usize")

/-- A document that must be an integer. -/
def toInteger : Document → Except ShapeError Int64
  | .number n => n.toInteger
  | d => .error (.invalidType d.found "i64")

/-- A document that must be a number. -/
def toFloat : Document → Except ShapeError Binary64
  | .number n => .ok n.toFloat
  | d => .error (.invalidType d.found "f64")

/-- A document that must be null. -/
def toUnit : Document → Except ShapeError Unit
  | .null => .ok ()
  | d => .error (.invalidType d.found "unit")

/-- A document that names a variant: a string, or an object with one key and a payload. -/
def toVariant : Document → Except ShapeError (String × Option Document)
  | .string name => .ok (name, none)
  | .object [(name, payload)] => .ok (name, some payload)
  | .object _ => .error (.invalidValue .map "map with a single key")
  | d => .error (.invalidType d.found "string or map")

/-- A document that names a variant without a payload. -/
def toUnitVariant (ofName : String → Except ShapeError α) (document : Document) :
    Except ShapeError α := do
  let (name, payload) ← document.toVariant
  let variant ← ofName name
  match payload with
  | none => .ok variant
  | some payload =>
    payload.toUnit
    .ok variant

end Document

namespace BinaryOp

/-- The operator that a document names. -/
def ofDocument : Document → Except ShapeError BinaryOp := Document.toUnitVariant ofName

end BinaryOp

namespace UnaryOp

/-- The operator that a document names. -/
def ofDocument : Document → Except ShapeError UnaryOp := Document.toUnitVariant ofName

end UnaryOp

namespace Literal

/-- The constant that a document describes. -/
def ofDocument (document : Document) : Except ShapeError Literal := do
  let (name, payload) ← document.toVariant
  let variant ← LiteralVariant.ofName name
  match payload with
  | none => variant.withoutPayload
  | some payload =>
    match variant with
    | .string => .string <$> payload.toText
    | .integer => .integer <$> payload.toInteger
    | .float => .float <$> payload.toFloat
    | .boolean => .boolean <$> payload.toBoolean
    | .duration => .duration <$> payload.toText
    | .null =>
      payload.toUnit
      .ok .null

end Literal

namespace Expr

mutual

/-- The expression that a document describes. -/
def ofDocument (document : Document) : Except ShapeError Expr :=
  match document with
  | .string name => do (← ExprVariant.ofName name).withoutPayload
  | .object [(name, payload)] => do
    match ← ExprVariant.ofName name with
    | .field => .field <$> payload.toText
    | .literal => .literal <$> Literal.ofDocument payload
    | .call => callOfDocument payload
    | .binary => binaryOfDocument payload
    | .unary => unaryOfDocument payload
    | .paren => .paren <$> ofDocument payload
    | .wildcard =>
      payload.toUnit
      .ok .wildcard
  | .object _ => .error (.invalidValue .map "map with a single key")
  | d => .error (.invalidType d.found "string or map")

/-- The call that a payload describes. -/
def callOfDocument (payload : Document) : Except ShapeError Expr :=
  match payload with
  | .object fields => do (← callOfFields {} fields).finish
  | d => .error (.invalidType d.found "struct variant")

/-- The values of a call after its remaining keys. -/
def callOfFields (slots : CallSlots) (fields : List (String × Document)) :
    Except ShapeError CallSlots :=
  match fields with
  | [] => .ok slots
  | (key, value) :: rest =>
    match CallKey.ofKey? key with
    | none => callOfFields slots rest
    | some .name =>
      if slots.name.isSome then .error (.duplicateField "name")
      else do
        let name ← value.toText
        callOfFields { slots with name := some name } rest
    | some .args =>
      if slots.args.isSome then .error (.duplicateField "args")
      else do
        let args ← listOfDocument value
        callOfFields { slots with args := some args } rest

/-- The operation with two operands that a payload describes. -/
def binaryOfDocument (payload : Document) : Except ShapeError Expr :=
  match payload with
  | .object fields => do (← binaryOfFields {} fields).finish
  | d => .error (.invalidType d.found "struct variant")

/-- The values of an operation with two operands after its remaining keys. -/
def binaryOfFields (slots : BinarySlots) (fields : List (String × Document)) :
    Except ShapeError BinarySlots :=
  match fields with
  | [] => .ok slots
  | (key, value) :: rest =>
    match BinaryKey.ofKey? key with
    | none => binaryOfFields slots rest
    | some .op =>
      if slots.op.isSome then .error (.duplicateField "op")
      else do
        let op ← BinaryOp.ofDocument value
        binaryOfFields { slots with op := some op } rest
    | some .lhs =>
      if slots.lhs.isSome then .error (.duplicateField "lhs")
      else do
        let lhs ← ofDocument value
        binaryOfFields { slots with lhs := some lhs } rest
    | some .rhs =>
      if slots.rhs.isSome then .error (.duplicateField "rhs")
      else do
        let rhs ← ofDocument value
        binaryOfFields { slots with rhs := some rhs } rest

/-- The operation with one operand that a payload describes. -/
def unaryOfDocument (payload : Document) : Except ShapeError Expr :=
  match payload with
  | .object fields => do (← unaryOfFields {} fields).finish
  | d => .error (.invalidType d.found "struct variant")

/-- The values of an operation with one operand after its remaining keys. -/
def unaryOfFields (slots : UnarySlots) (fields : List (String × Document)) :
    Except ShapeError UnarySlots :=
  match fields with
  | [] => .ok slots
  | (key, value) :: rest =>
    match UnaryKey.ofKey? key with
    | none => unaryOfFields slots rest
    | some .op =>
      if slots.op.isSome then .error (.duplicateField "op")
      else do
        let op ← UnaryOp.ofDocument value
        unaryOfFields { slots with op := some op } rest
    | some .expr =>
      if slots.expr.isSome then .error (.duplicateField "expr")
      else do
        let expr ← ofDocument value
        unaryOfFields { slots with expr := some expr } rest

/-- The expressions that an array describes. -/
def listOfDocument (document : Document) : Except ShapeError (List Expr) :=
  match document with
  | .array items => ofItems items
  | d => .error (.invalidType d.found "a sequence")

/-- The expressions that the items of an array describe, in order. -/
def ofItems (items : List Document) : Except ShapeError (List Expr) :=
  match items with
  | [] => .ok []
  | item :: rest => do
    let e ← ofDocument item
    let es ← ofItems rest
    .ok (e :: es)

end

end Expr

namespace SortField

/-- The values of a sort criterion after its remaining keys. -/
def ofFields (slots : SortSlots) (fields : Fields) : Except ShapeError SortSlots :=
  match fields with
  | [] => .ok slots
  | (key, value) :: rest =>
    match SortKey.ofKey? key with
    | none => ofFields slots rest
    | some .name =>
      if slots.name.isSome then .error (.duplicateField "name")
      else do
        let name ← value.toText
        ofFields { slots with name := some name } rest
    | some .ascending =>
      if slots.ascending.isSome then .error (.duplicateField "ascending")
      else do
        let ascending ← value.toBoolean
        ofFields { slots with ascending := some ascending } rest

/-- The sort criterion that an array of its fields describes. -/
def ofItems (items : List Document) : Except ShapeError SortField :=
  match items with
  | [] => .error (.invalidLength 0 "struct SortField with 2 elements")
  | [name] => do .ok { name := ← name.toText }
  | name :: ascending :: more => do
    let name ← name.toText
    let ascending ← ascending.toBoolean
    if more.isEmpty then .ok { name, ascending }
    else .error (.invalidLength items.length "fewer elements in array")

/-- The sort criterion that a document describes. -/
def ofDocument : Document → Except ShapeError SortField
  | .object fields => do (← ofFields {} fields).finish
  | .array items => ofItems items
  | d => .error (.invalidType d.found "struct SortField")

/-- The sort criteria that an array describes, in order. -/
def listOfDocument : Document → Except ShapeError (List SortField)
  | .array items => items.mapM ofDocument
  | d => .error (.invalidType d.found "a sequence")

end SortField

namespace Query

/-- The filter that a document describes; null is no filter. -/
def conditionOfDocument : Document → Except ShapeError (Option Expr)
  | .null => .ok none
  | d => some <$> Expr.ofDocument d

/-- The values of a query with one more field. -/
def fillField (slots : QuerySlots) (field : QueryField) (value : Document) :
    Except ShapeError QuerySlots :=
  match field with
  | .offset => do .ok { slots with offset := some (← value.toCount) }
  | .limit => do .ok { slots with limit := some (← value.toCount) }
  | .sortFields => do .ok { slots with sortFields := some (← SortField.listOfDocument value) }
  | .filterCondition => do
    .ok { slots with filterCondition := some (← conditionOfDocument value) }
  | .dimensions => do .ok { slots with dimensions := some (← Expr.listOfDocument value) }
  | .fields => do .ok { slots with fields := some (← Expr.listOfDocument value) }

/-- The values of a query after its remaining keys. -/
def ofFields (slots : QuerySlots) (fields : Fields) : Except ShapeError QuerySlots :=
  match fields with
  | [] => .ok slots
  | (key, value) :: rest =>
    match QueryField.ofKey? key with
    | none => ofFields slots rest
    | some field =>
      if slots.filled field then .error (.duplicateField field.name)
      else do ofFields (← fillField slots field value) rest

/-- The values of a query from an array that goes on with the given fields. -/
def ofItems (slots : QuerySlots) (fields : List QueryField) (items : List Document) :
    Except ShapeError (QuerySlots × List Document) :=
  match fields, items with
  | field :: fields, item :: items => do ofItems (← fillField slots field item) fields items
  | _, items => .ok (slots, items)

/-- The query that a document describes. -/
def ofDocument : Document → Except ShapeError Query
  | .object fields => do .ok (← ofFields {} fields).finish
  | .array items => do
    let (slots, more) ← ofItems {} QueryField.all items
    if more.isEmpty then .ok slots.finish
    else .error (.invalidLength items.length "fewer elements in array")
  | d => .error (.invalidType d.found "struct Query")

end Query

end AggQuery
