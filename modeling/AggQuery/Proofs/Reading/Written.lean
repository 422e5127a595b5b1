import AggQuery.Proofs.Reading.Queries
import AggQuery.Query.Document

/-!
# Queries read back from their documents

The document of a query is read as that query, as long as its floating-point constants are
finite (`Query.ofDocument_toDocument`). In that document no object has a key twice, and its
numbers are integers of 64 bits and the floating-point constants (`Query.legible_toDocument`).
So the query is read back from the text of the document too, if the constants are read back
from their texts (`Query.ofInput_toDocument_compact`).
-/

namespace AggQuery

open Document Lexeme

/-- Reading a list of documents, each of which is read back. -/
theorem listOf_map {α : Type} {take : Document → Except ShapeError α} {write : α → Document}
    {xs : List α} (h : ∀ x ∈ xs, take (write x) = .ok x) :
    listOf take (.array (xs.map write)) = .ok xs := by
  rw [listOf]
  induction xs with
  | nil => rfl
  | cons x xs ih =>
      obtain ⟨hx, hxs⟩ := List.forall_mem_cons.mp h
      rw [List.map_cons, List.mapM_cons, hx, ih hxs]
      rfl

namespace Number

theorem toInteger_toInt (n : Int64) : (integer n.toInt).toInteger = .ok n := by
  rw [toInteger, if_pos ⟨n.minValue_le_toInt, n.toInt_le⟩, Int64.ofInt_toInt]

theorem toCount_toNat (n : UInt64) : (integer n.toNat).toCount = .ok n := by
  have hsize : (n.toNat : Int) < UInt64.size := by exact_mod_cast n.toNat_lt
  rw [toCount, if_pos ⟨by omega, hsize⟩, Int.toNat_natCast, UInt64.ofNat_toNat]

theorem fits_toInt (n : Int64) : (integer n.toInt).Fits := by
  have hleast := n.le_toInt
  have hgreatest := n.toInt_lt
  have hbound : (1 <<< 63 : Int) = 2 ^ 63 := by decide
  have hsize : (UInt64.size : Int) = 2 ^ 64 := by decide
  rw [Fits, hbound, hsize]
  omega

theorem fits_toNat (n : UInt64) : (integer n.toNat).Fits := by
  have hbound : (1 <<< 63 : Int) = 2 ^ 63 := by decide
  have hsize : (n.toNat : Int) < UInt64.size := by exact_mod_cast n.toNat_lt
  rw [Fits, hbound]
  omega

end Number

section Floats

variable (p : Binary64 → Prop)

/-- A floating-point constant has the property. -/
def Literal.Floats : Literal → Prop
  | .float x => p x
  | _ => True

/-- All floating-point constants of an expression have the property. -/
inductive Expr.Floats : Expr → Prop
  | field (name : String) : Floats (.field name)
  | literal {value : Literal} (h : value.Floats p) : Floats (.literal value)
  | call (name : String) {args : List Expr} (h : ∀ arg ∈ args, Floats arg) :
      Floats (.call name args)
  | binary (op : BinaryOp) {lhs rhs : Expr} (hlhs : Floats lhs) (hrhs : Floats rhs) :
      Floats (.binary op lhs rhs)
  | unary (op : UnaryOp) {operand : Expr} (h : Floats operand) : Floats (.unary op operand)
  | paren {inner : Expr} (h : Floats inner) : Floats (.paren inner)
  | wildcard : Floats .wildcard

/-- All floating-point constants of a query have the property. -/
structure Query.Floats (q : Query) : Prop where
  filterCondition : ∀ e ∈ q.filterCondition, e.Floats p
  dimensions : ∀ e ∈ q.dimensions, e.Floats p
  fields : ∀ e ∈ q.fields, e.Floats p

end Floats

/-- A floating-point constant is a finite number. -/
def Literal.Finite (value : Literal) : Prop := value.Floats fun x => x.isFinite = true

/-- All floating-point constants of an expression are finite numbers. -/
def Expr.Finite (e : Expr) : Prop := e.Floats fun x => x.isFinite = true

/-- All floating-point constants of a query are finite numbers. -/
def Query.Finite (q : Query) : Prop := q.Floats fun x => x.isFinite = true

namespace Literal

theorem ofDocument_toDocument {value : Literal} (h : value.Finite) :
    ofDocument value.toDocument = .ok value := by
  cases value with
  | integer n => exact congrArg (integer <$> ·) (Number.toInteger_toInt n)
  | float x =>
      have hfinite : x.isFinite = true := h
      rw [toDocument, if_pos hfinite]
      rfl
  | _ => rfl

theorem legible_toDocument {p : Number → Prop}
    (hinteger : ∀ n, (Number.integer n).Fits → p (.integer n)) {value : Literal}
    (h : value.Floats fun x => p (.float x)) : value.toDocument.Legible p := by
  cases value with
  | string s | duration s => exact (Fields.legible_singleton _ (.string s)).object
  | integer n =>
      exact (Fields.legible_singleton _ (.number (hinteger _ (Number.fits_toInt n)))).object
  | float x =>
      apply (Fields.legible_singleton _ _).object
      split
      · exact .number h
      · exact .null
  | boolean b => exact (Fields.legible_singleton _ (.boolean b)).object
  | null => exact .string _

end Literal

namespace Expr

theorem ofDocument_toDocument {e : Expr} (h : e.Finite) : ofDocument e.toDocument = .ok e := by
  induction h with
  | field name => rfl
  | literal h => exact congrArg (literal <$> ·) (Literal.ofDocument_toDocument h)
  | @call name args _ ih =>
      have hargs := listOf_map ih
      rw [← listOfDocument_eq, ← toDocuments_eq_map] at hargs
      change ((listOfDocument (.array (toDocuments args)) >>= fun args =>
        callOfFields ⟨some name, some args⟩ []) >>= CallSlots.finish) = _
      rw [hargs]
      rfl
  | @binary op lhs rhs _ _ ihl ihr =>
      have hop : BinaryOp.ofDocument (.string op.name) = .ok op := by cases op <;> rfl
      change ((BinaryOp.ofDocument (.string op.name) >>= fun op =>
        binaryOfFields ⟨some op, none, none⟩ [("lhs", lhs.toDocument), ("rhs", rhs.toDocument)]) >>=
          BinarySlots.finish) = _
      rw [hop]
      change ((ofDocument lhs.toDocument >>= fun lhs =>
        binaryOfFields ⟨some op, some lhs, none⟩ [("rhs", rhs.toDocument)]) >>=
          BinarySlots.finish) = _
      rw [ihl]
      change ((ofDocument rhs.toDocument >>= fun rhs =>
        binaryOfFields ⟨some op, some lhs, some rhs⟩ []) >>= BinarySlots.finish) = _
      rw [ihr]
      rfl
  | @unary op operand _ ih =>
      have hop : UnaryOp.ofDocument (.string op.name) = .ok op := by cases op <;> rfl
      change ((UnaryOp.ofDocument (.string op.name) >>= fun op =>
        unaryOfFields ⟨some op, none⟩ [("expr", operand.toDocument)]) >>= UnarySlots.finish) = _
      rw [hop]
      change ((ofDocument operand.toDocument >>= fun operand =>
        unaryOfFields ⟨some op, some operand⟩ []) >>= UnarySlots.finish) = _
      rw [ih]
      rfl
  | paren _ ih => exact congrArg (paren <$> ·) ih
  | wildcard => rfl

theorem listOfDocument_map {es : List Expr} (h : ∀ e ∈ es, e.Finite) :
    listOfDocument (.array (es.map toDocument)) = .ok es := by
  rw [listOfDocument_eq]
  exact listOf_map fun e he => ofDocument_toDocument (h e he)

/-- The document of an expression is legible as soon as its floating-point constants are. -/
theorem legible_toDocument {p : Number → Prop}
    (hinteger : ∀ n, (Number.integer n).Fits → p (.integer n)) {e : Expr}
    (h : e.Floats fun x => p (.float x)) : e.toDocument.Legible p := by
  induction h with
  | field name => exact (Fields.legible_singleton _ (.string name)).object
  | literal h => exact (Fields.legible_singleton _ (Literal.legible_toDocument hinteger h)).object
  | @call name args _ ih =>
      have hargs : (Document.array (toDocuments args)).Legible p := by
        rw [toDocuments_eq_map]
        exact .array (List.forall_mem_map.mpr ih)
      apply (Fields.legible_singleton "call" _).object
      apply Document.Legible.object
      · exact (by decide : ["name", "args"].Nodup)
      · simp [hargs]
  | binary op _ _ hlhs hrhs =>
      apply (Fields.legible_singleton "binary" _).object
      apply Document.Legible.object
      · exact (by decide : ["op", "lhs", "rhs"].Nodup)
      · simp [hlhs, hrhs]
  | unary op _ hoperand =>
      apply (Fields.legible_singleton "unary" _).object
      apply Document.Legible.object
      · exact (by decide : ["op", "expr"].Nodup)
      · simp [hoperand]
  | paren _ hinner => exact (Fields.legible_singleton _ hinner).object
  | wildcard => exact .string _

end Expr

namespace SortField

theorem ofDocument_toDocument (s : SortField) : ofDocument s.toDocument = .ok s := rfl

theorem legible_toDocument {p : Number → Prop} (s : SortField) : s.toDocument.Legible p := by
  apply Document.Legible.object
  · exact (by decide : ["name", "ascending"].Nodup)
  · simp

end SortField

/-- An array of documents that are legible one by one. -/
theorem legible_array_map {α : Type} {write : α → Document} {p : Number → Prop} (xs : List α)
    (h : ∀ x ∈ xs, (write x).Legible p) : (Document.array (xs.map write)).Legible p :=
  .array (List.forall_mem_map.mpr h)

namespace Query

theorem conditionOfDocument_toDocument {condition : Option Expr}
    (h : ∀ e ∈ condition, e.Finite) :
    conditionOfDocument ((condition.map Expr.toDocument).getD .null) = .ok condition := by
  cases condition with
  | none => rfl
  | some e =>
      have hsome : conditionOfDocument e.toDocument = some <$> Expr.ofDocument e.toDocument := by
        cases e <;> rfl
      change conditionOfDocument e.toDocument = _
      rw [hsome, Expr.ofDocument_toDocument (h e rfl)]
      rfl

/-- A field that is new and can be filled is filled. -/
theorem ofFields_fill {slots after : QuerySlots} {key : String} {field : QueryField}
    {value : Document} (fields : Fields) (hkey : QueryField.ofKey? key = some field)
    (hnew : slots.filled field = false) (hfill : fillField slots field value = .ok after) :
    ofFields slots ((key, value) :: fields) = ofFields after fields := by
  rw [ofFields, hkey]
  dsimp only
  rw [if_neg (by simp [hnew]), hfill]
  rfl

section Fill

variable (slots : QuerySlots)

theorem fillField_offset (n : UInt64) :
    fillField slots .offset (.ofInt n.toNat) = .ok { slots with offset := some n } := by
  rw [fillField, ofInt, toCount, Number.toCount_toNat]
  rfl

theorem fillField_limit (n : UInt64) :
    fillField slots .limit (.ofInt n.toNat) = .ok { slots with limit := some n } := by
  rw [fillField, ofInt, toCount, Number.toCount_toNat]
  rfl

theorem fillField_sortFields (sortFields : List SortField) :
    fillField slots .sortFields (.array (sortFields.map SortField.toDocument)) =
      .ok { slots with sortFields := some sortFields } := by
  have hlist := listOf_map fun (s : SortField) (_ : s ∈ sortFields) => s.ofDocument_toDocument
  rw [fillField]
  exact congrArg (· >>= _) hlist

theorem fillField_filterCondition {condition : Option Expr} (h : ∀ e ∈ condition, e.Finite) :
    fillField slots .filterCondition ((condition.map Expr.toDocument).getD .null) =
      .ok { slots with filterCondition := some condition } := by
  rw [fillField, conditionOfDocument_toDocument h]
  rfl

theorem fillField_dimensions {es : List Expr} (h : ∀ e ∈ es, e.Finite) :
    fillField slots .dimensions (.array (es.map Expr.toDocument)) =
      .ok { slots with dimensions := some es } := by
  rw [fillField, Expr.listOfDocument_map h]
  rfl

theorem fillField_fields {es : List Expr} (h : ∀ e ∈ es, e.Finite) :
    fillField slots .fields (.array (es.map Expr.toDocument)) =
      .ok { slots with fields := some es } := by
  rw [fillField, Expr.listOfDocument_map h]
  rfl

end Fill

theorem ofDocument_toDocument {q : Query} (h : q.Finite) : ofDocument q.toDocument = .ok q := by
  rw [toDocument, ofDocument, ofFields_fill _ rfl rfl (fillField_offset _ q.offset),
    ofFields_fill _ rfl rfl (fillField_limit _ q.limit),
    ofFields_fill _ rfl rfl (fillField_sortFields _ q.sortFields),
    ofFields_fill _ rfl rfl (fillField_filterCondition _ h.filterCondition),
    ofFields_fill _ rfl rfl (fillField_dimensions _ h.dimensions),
    ofFields_fill _ rfl rfl (fillField_fields _ h.fields)]
  rfl

/-- The document of a query is legible as soon as its floating-point constants are. -/
theorem legible_toDocument {p : Number → Prop}
    (hinteger : ∀ n, (Number.integer n).Fits → p (.integer n)) {q : Query}
    (h : q.Floats fun x => p (.float x)) : q.toDocument.Legible p := by
  have hexpr {e : Expr} (h : e.Floats fun x => p (.float x)) := Expr.legible_toDocument hinteger h
  have hcondition : ((q.filterCondition.map Expr.toDocument).getD .null).Legible p := by
    cases hfilter : q.filterCondition with
    | none => exact .null
    | some e => exact hexpr (h.filterCondition e hfilter)
  have hsort := legible_array_map q.sortFields fun s _ => s.legible_toDocument (p := p)
  have hdimensions := legible_array_map q.dimensions fun e he => hexpr (h.dimensions e he)
  have hfields := legible_array_map q.fields fun e he => hexpr (h.fields e he)
  have hoffset := Document.Legible.number (hinteger _ (Number.fits_toNat q.offset))
  have hlimit := Document.Legible.number (hinteger _ (Number.fits_toNat q.limit))
  apply Document.Legible.object
  · exact (by decide : ["offset", "limit", "sort_fields",
    "filter_condition", "dimensions", "fields"].Nodup)
  · simp only [List.forall_mem_cons]
    exact ⟨hoffset, hlimit, hsort, hcondition, hdimensions, hfields, by simp⟩

/-- A query whose floating-point constants are finite and read back from their texts is read
back from its text, if that nests no deeper than the reader goes. -/
theorem ofInput_toDocument_compact {q : Query} (hfinite : q.Finite)
    (hreads : q.Floats fun x => NumberReads (.float x))
    (hdepth : q.toDocument.depth ≤ nestingLimit) :
    ofInput .json q.toDocument.compact = .ok q := by
  have hread := ofDocument_toDocument hfinite
  have hlegible := legible_toDocument (fun _ h => numberReads_integer h.1 h.2) hreads
  exact (ofInput_compact_iff hlegible hdepth (not_hasArrayPayload hread) q).mpr hread

end Query

/-- A query with every kind of expression and constant. -/
def everyKindQuery : Query where
  offset := 18446744073709551615
  limit := 10
  sortFields := [⟨"price \"net\"", false⟩]
  filterCondition := some (.binary .and
    (.unary .not (.binary .eq (.field "name\n") (.literal (.string "π"))))
    (.paren (.binary .gte (.field "price") (.literal (.float (.ofDecimal true 15 (-1)))))))
  dimensions := [.call "date_histogram" [.field "at", .literal (.duration "1d")],
    .literal (.boolean true), .literal .null]
  fields := [.call "now" [], .call "count" [.wildcard],
    .unary .neg (.literal (.integer (-9223372036854775808)))]

theorem everyKindQuery_floats {p : Binary64 → Prop} (h : p (.ofDecimal true 15 (-1))) :
    everyKindQuery.Floats p := by
  constructor
  · intro e he
    obtain rfl := Option.some.inj he
    exact .binary _ (.unary _ (.binary _ (.field _) (.literal trivial)))
      (.paren (.binary _ (.field _) (.literal h)))
  · have hargs : ∀ arg ∈ [Expr.field "at", .literal (.duration "1d")], arg.Floats p :=
      List.forall_mem_cons.mpr ⟨.field _, by simpa using .literal trivial⟩
    simpa [everyKindQuery] using ⟨.call _ hargs, .literal trivial, .literal trivial⟩
  · simpa [everyKindQuery] using
      ⟨.call _ (by simp), .call _ (by simpa using .wildcard), .unary _ (.literal trivial)⟩

theorem everyKindQuery_readBack :
    everyKindQuery.Finite ∧ (everyKindQuery.Floats fun x => NumberReads (.float x)) ∧
      everyKindQuery.toDocument.depth ≤ nestingLimit ∧
      Query.ofInput .json everyKindQuery.toDocument.compact = .ok everyKindQuery := by
  have hfinite : (Binary64.ofDecimal true 15 (-1)).isFinite = true := by decide +kernel
  have hreads : NumberReads (.float (.ofDecimal true 15 (-1))) :=
    numberReads_float_of_short hfinite (by constructor <;> decide +kernel)
  have hdepth : everyKindQuery.toDocument.depth ≤ nestingLimit := by decide
  exact ⟨everyKindQuery_floats hfinite, everyKindQuery_floats hreads, hdepth,
    Query.ofInput_toDocument_compact (everyKindQuery_floats hfinite)
      (everyKindQuery_floats hreads) hdepth⟩

end AggQuery
