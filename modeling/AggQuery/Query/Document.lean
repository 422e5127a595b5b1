import AggQuery.Document.Writer
import AggQuery.Query.Basic

/-!
# Query documents

Expressions and queries as documents. A variant with a payload is an object with the
variant's name as its only key, and a variant without one is its name. All fields are
written, in a fixed order and under their first name.
-/

namespace AggQuery

namespace Literal

/-- A constant as a document. A floating-point word that is no finite number has no
document of its own and becomes null. -/
def toDocument : Literal → Document
  | .string s => .object [("string", .string s)]
  | .integer n => .object [("integer", .ofInt n.toInt)]
  | .float x => .object [("float", if x.isFinite then .ofFloat x else .null)]
  | .boolean b => .object [("boolean", .boolean b)]
  | .duration text => .object [("duration", .string text)]
  | .null => .string "null"

end Literal

namespace Expr

mutual

/-- An expression as a document. -/
def toDocument : Expr → Document
  | .field name => .object [("field", .string name)]
  | .literal value => .object [("literal", value.toDocument)]
  | .call name args =>
    .object [("call", .object [("name", .string name), ("args", .array (toDocuments args))])]
  | .binary op lhs rhs =>
    .object [("binary", .object
      [("op", .string op.name), ("lhs", lhs.toDocument), ("rhs", rhs.toDocument)])]
  | .unary op operand =>
    .object [("unary", .object [("op", .string op.name), ("expr", operand.toDocument)])]
  | .paren inner => .object [("paren", inner.toDocument)]
  | .wildcard => .string "wildcard"

/-- A list of expressions as a list of documents. -/
def toDocuments : List Expr → List Document
  | [] => []
  | e :: es => e.toDocument :: toDocuments es

end

theorem toDocuments_eq_map (es : List Expr) : toDocuments es = es.map toDocument := by
  induction es with
  | nil => rfl
  | cons e es ih => simp [toDocuments, ih]

end Expr

namespace SortField

/-- A sort criterion as a document. -/
def toDocument (sortField : SortField) : Document :=
  .object [("name", .string sortField.name), ("ascending", .boolean sortField.ascending)]

end SortField

namespace Query

/-- A query as a document. -/
def toDocument (query : Query) : Document :=
  .object [
    ("offset", .ofInt query.offset.toNat),
    ("limit", .ofInt query.limit.toNat),
    ("sort_fields", .array (query.sortFields.map SortField.toDocument)),
    ("filter_condition", (query.filterCondition.map Expr.toDocument).getD .null),
    ("dimensions", .array (query.dimensions.map Expr.toDocument)),
    ("fields", .array (query.fields.map Expr.toDocument))]

end Query

end AggQuery
