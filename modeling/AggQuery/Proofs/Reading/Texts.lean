import AggQuery.Proofs.Document.Strings
import AggQuery.Proofs.Reading.Written

/-!
# The texts of a query

The texts of a query are the names of its fields, calls and sort criteria, its strings and its
durations. `Query.mapTexts?` replaces each of them, as far as they can be replaced. In the
document of a query they are the string values, next to a few fixed words, so replacing the
strings of the document is replacing the texts of the query (`mapStrings?_toDocument`).
-/

namespace AggQuery

open Document

namespace Literal

/-- The text of a constant, if it has one. -/
def texts : Literal → List String
  | .string s => [s]
  | .duration text => [text]
  | .integer _ | .float _ | .boolean _ | .null => []

/-- The constant with its text replaced. -/
def mapTexts? (f : String → Option String) : Literal → Option Literal
  | .string s => (f s).map .string
  | .duration text => (f text).map .duration
  | .integer n => some (.integer n)
  | .float x => some (.float x)
  | .boolean b => some (.boolean b)
  | .null => some .null

end Literal

namespace Expr

mutual

/-- The texts of an expression. -/
def texts : Expr → List String
  | .field name => [name]
  | .literal value => value.texts
  | .call name args => name :: textsOfAll args
  | .binary _ lhs rhs => lhs.texts ++ rhs.texts
  | .unary _ operand => operand.texts
  | .paren inner => inner.texts
  | .wildcard => []

/-- The texts of some expressions. -/
def textsOfAll : List Expr → List String
  | [] => []
  | e :: es => e.texts ++ textsOfAll es

end

mutual

/-- The expression with its texts replaced; `none` if one of them cannot be. -/
def mapTexts? (f : String → Option String) : Expr → Option Expr
  | .field name => (f name).map .field
  | .literal value => (value.mapTexts? f).map .literal
  | .call name args => do some (.call (← f name) (← mapAllTexts? f args))
  | .binary op lhs rhs => do some (.binary op (← lhs.mapTexts? f) (← rhs.mapTexts? f))
  | .unary op operand => (operand.mapTexts? f).map (.unary op)
  | .paren inner => (inner.mapTexts? f).map .paren
  | .wildcard => some .wildcard

/-- Some expressions with their texts replaced. -/
def mapAllTexts? (f : String → Option String) : List Expr → Option (List Expr)
  | [] => some []
  | e :: es => do some ((← e.mapTexts? f) :: (← mapAllTexts? f es))

end

end Expr

namespace SortField

/-- The sort criterion with its name replaced. -/
def mapTexts? (f : String → Option String) (sortField : SortField) : Option SortField :=
  (f sortField.name).map fun name => { sortField with name }

end SortField

namespace Query

/-- The texts of a query. -/
def texts (q : Query) : List String :=
  q.sortFields.map SortField.name ++ Expr.textsOfAll q.filterCondition.toList ++
    Expr.textsOfAll q.dimensions ++ Expr.textsOfAll q.fields

/-- The query with its texts replaced; `none` if one of them cannot be. -/
def mapTexts? (f : String → Option String) (q : Query) : Option Query := do
  some { q with
    sortFields := ← q.sortFields.mapM (SortField.mapTexts? f)
    filterCondition := ← q.filterCondition.mapM (Expr.mapTexts? f)
    dimensions := ← Expr.mapAllTexts? f q.dimensions
    fields := ← Expr.mapAllTexts? f q.fields }

end Query

section Kept

variable {f : String → Option String}

namespace Expr

mutual

/-- An expression is kept if all of its texts are. -/
theorem mapTexts?_eq_self_iff : ∀ e : Expr,
    e.mapTexts? f = some e ↔ ∀ s ∈ e.texts, f s = some s
  | .field name => by simp [mapTexts?, texts]
  | .literal value => by cases value <;> simp [mapTexts?, texts, Literal.mapTexts?, Literal.texts]
  | .call name args => by
      have hargs := mapAllTexts?_eq_self_iff args
      rw [texts, List.forall_mem_cons, ← hargs]
      cases hname : f name <;> cases hall : mapAllTexts? f args <;>
        simp [mapTexts?, hname, hall]
  | .binary op lhs rhs => by
      have hlhs := mapTexts?_eq_self_iff lhs
      have hrhs := mapTexts?_eq_self_iff rhs
      rw [texts, List.forall_mem_append, ← hlhs, ← hrhs]
      cases hleft : lhs.mapTexts? f <;> cases hright : rhs.mapTexts? f <;>
        simp [mapTexts?, hleft, hright]
  | .unary op operand => by
      simp [mapTexts?, texts, ← mapTexts?_eq_self_iff operand]
  | .paren inner => by
      simp [mapTexts?, texts, ← mapTexts?_eq_self_iff inner]
  | .wildcard => by simp [mapTexts?, texts]

theorem mapAllTexts?_eq_self_iff : ∀ es : List Expr,
    mapAllTexts? f es = some es ↔ ∀ s ∈ textsOfAll es, f s = some s
  | [] => by simp [mapAllTexts?, textsOfAll]
  | e :: es => by
      have hfirst := mapTexts?_eq_self_iff e
      have hothers := mapAllTexts?_eq_self_iff es
      rw [textsOfAll, List.forall_mem_append, ← hfirst, ← hothers]
      cases hleft : e.mapTexts? f <;> cases hright : mapAllTexts? f es <;>
        simp [mapAllTexts?, hleft, hright]

end

end Expr

theorem SortField.mapM_mapTexts?_eq_self_iff (sortFields : List SortField) :
    sortFields.mapM (SortField.mapTexts? f) = some sortFields ↔
      ∀ s ∈ sortFields.map SortField.name, f s = some s := by
  induction sortFields with
  | nil => simp
  | cons sortField sortFields ih =>
      obtain ⟨name, ascending⟩ := sortField
      rw [List.map_cons, List.forall_mem_cons, ← ih, List.mapM_cons, SortField.mapTexts?]
      cases f name <;> cases sortFields.mapM (SortField.mapTexts? f) <;> simp

/-- A query is kept if all of its texts are. -/
theorem Query.mapTexts?_eq_self_iff (q : Query) :
    q.mapTexts? f = some q ↔ ∀ s ∈ q.texts, f s = some s := by
  obtain ⟨offset, limit, sortFields, filterCondition, dimensions, fields⟩ := q
  have hcondition : filterCondition.mapM (Expr.mapTexts? f) = some filterCondition ↔
      ∀ s ∈ Expr.textsOfAll filterCondition.toList, f s = some s := by
    cases filterCondition with
    | none => simp [Expr.textsOfAll]
    | some e => simp [Expr.textsOfAll, ← Expr.mapTexts?_eq_self_iff]
  rw [texts, List.forall_mem_append, List.forall_mem_append, List.forall_mem_append,
    ← SortField.mapM_mapTexts?_eq_self_iff, ← hcondition, ← Expr.mapAllTexts?_eq_self_iff,
    ← Expr.mapAllTexts?_eq_self_iff, mapTexts?]
  cases sortFields.mapM (SortField.mapTexts? f) <;>
    cases filterCondition.mapM (Expr.mapTexts? f) <;>
      cases Expr.mapAllTexts? f dimensions <;> cases Expr.mapAllTexts? f fields <;>
        simp [and_assoc]

end Kept

/-- The words that stand as string values in the documents of queries. -/
def fixedWords : List String :=
  "null" :: "wildcard" :: (BinaryOp.all.map BinaryOp.name ++ UnaryOp.all.map UnaryOp.name)

section Written

variable {f : String → Option String}

theorem Literal.mapStrings?_toDocument (hfixed : ∀ s ∈ fixedWords, f s = some s)
    (value : Literal) :
    value.toDocument.mapStrings? f = (value.mapTexts? f).map Literal.toDocument := by
  cases value with
  | string s =>
      simp only [Literal.toDocument, Literal.mapTexts?, mapStrings?, mapFields?]
      cases f s <;> rfl
  | duration s =>
      simp only [Literal.toDocument, Literal.mapTexts?, mapStrings?, mapFields?]
      cases f s <;> rfl
  | integer n => rfl
  | boolean b => rfl
  | float x =>
      have hnumber : (if x.isFinite then ofFloat x else .null).mapStrings? f =
          some (if x.isFinite then ofFloat x else .null) := by split <;> rfl
      simp only [Literal.toDocument, Literal.mapTexts?, mapStrings?, mapFields?, hnumber]
      rfl
  | null =>
      have hnull := hfixed "null" (by decide)
      simp [Literal.toDocument, Literal.mapTexts?, mapStrings?, hnull]

namespace Expr

mutual

/-- Replacing the strings of an expression's document is replacing the expression's texts. -/
theorem mapStrings?_toDocument (hfixed : ∀ s ∈ fixedWords, f s = some s) : ∀ e : Expr,
    e.toDocument.mapStrings? f = (e.mapTexts? f).map Expr.toDocument
  | .field name => by
      simp only [toDocument, mapTexts?, mapStrings?, mapFields?]
      cases f name <;> rfl
  | .literal value => by
      have hvalue := Literal.mapStrings?_toDocument hfixed value
      simp only [toDocument, mapTexts?, mapStrings?, mapFields?, hvalue]
      cases value.mapTexts? f <;> rfl
  | .call name args => by
      have hargs := mapItems?_toDocuments hfixed args
      simp only [toDocument, mapTexts?, mapStrings?, mapFields?, hargs]
      cases f name <;> cases mapAllTexts? f args <;> rfl
  | .binary op lhs rhs => by
      have hop : f op.name = some op.name := hfixed op.name (by cases op <;> decide)
      have hlhs := mapStrings?_toDocument hfixed lhs
      have hrhs := mapStrings?_toDocument hfixed rhs
      simp only [toDocument, mapTexts?, mapStrings?, mapFields?, hlhs, hrhs, hop]
      cases lhs.mapTexts? f <;> cases rhs.mapTexts? f <;> rfl
  | .unary op operand => by
      have hop : f op.name = some op.name := hfixed op.name (by cases op <;> decide)
      have hoperand := mapStrings?_toDocument hfixed operand
      simp only [toDocument, mapTexts?, mapStrings?, mapFields?, hoperand, hop]
      cases operand.mapTexts? f <;> rfl
  | .paren inner => by
      have hinner := mapStrings?_toDocument hfixed inner
      simp only [toDocument, mapTexts?, mapStrings?, mapFields?, hinner]
      cases inner.mapTexts? f <;> rfl
  | .wildcard => by
      have hwildcard := hfixed "wildcard" (by decide)
      simp [toDocument, mapTexts?, mapStrings?, hwildcard]

theorem mapItems?_toDocuments (hfixed : ∀ s ∈ fixedWords, f s = some s) : ∀ es : List Expr,
    mapItems? f (toDocuments es) = (mapAllTexts? f es).map toDocuments
  | [] => rfl
  | e :: es => by
      have hfirst := mapStrings?_toDocument hfixed e
      have hothers := mapItems?_toDocuments hfixed es
      simp only [toDocuments, mapItems?, mapAllTexts?, hfirst, hothers]
      cases e.mapTexts? f <;> cases mapAllTexts? f es <;> rfl

end

end Expr

/-- The items of an array that are replaced one by one. -/
theorem mapItems?_map {α : Type} {write : α → Document} {take : α → Option α}
    (h : ∀ x, (write x).mapStrings? f = (take x).map write) (xs : List α) :
    mapItems? f (xs.map write) = (xs.mapM take).map (List.map write) := by
  induction xs with
  | nil => rfl
  | cons x xs ih =>
      rw [List.map_cons, mapItems?, h, ih, List.mapM_cons]
      cases take x <;> cases xs.mapM take <;> rfl

theorem SortField.mapStrings?_toDocument (sortField : SortField) :
    sortField.toDocument.mapStrings? f = (sortField.mapTexts? f).map SortField.toDocument := by
  simp only [toDocument, mapTexts?, mapStrings?, mapFields?]
  cases f sortField.name <;> rfl

/-- Replacing the strings of a query's document is replacing the query's texts. -/
theorem Query.mapStrings?_toDocument (hfixed : ∀ s ∈ fixedWords, f s = some s) (q : Query) :
    q.toDocument.mapStrings? f = (q.mapTexts? f).map Query.toDocument := by
  have hsort := mapItems?_map (@SortField.mapStrings?_toDocument f) q.sortFields
  have hexprs (es : List Expr) : mapItems? f (es.map Expr.toDocument) =
      (Expr.mapAllTexts? f es).map (List.map Expr.toDocument) := by
    simpa [Expr.toDocuments_eq_map, funext Expr.toDocuments_eq_map]
      using Expr.mapItems?_toDocuments hfixed es
  have hcondition : ((q.filterCondition.map Expr.toDocument).getD .null).mapStrings? f =
      (q.filterCondition.mapM (Expr.mapTexts? f)).map fun condition =>
        (condition.map Expr.toDocument).getD .null := by
    cases q.filterCondition with
    | none => rfl
    | some e =>
        have he := Expr.mapStrings?_toDocument hfixed e
        cases hafter : e.mapTexts? f <;> simpa [hafter] using he
  have hoffset : (ofInt q.offset.toNat).mapStrings? f = some (ofInt q.offset.toNat) := rfl
  have hlimit : (ofInt q.limit.toNat).mapStrings? f = some (ofInt q.limit.toNat) := rfl
  simp only [toDocument, mapTexts?, mapStrings?, mapFields?, hsort, hexprs, hcondition, hoffset,
    hlimit]
  cases q.sortFields.mapM (SortField.mapTexts? f) <;>
    cases q.filterCondition.mapM (Expr.mapTexts? f) <;>
      cases Expr.mapAllTexts? f q.dimensions <;> cases Expr.mapAllTexts? f q.fields <;> rfl

end Written

section Floats

variable {f : String → Option String} {p : Binary64 → Prop}

theorem Literal.Floats.of_mapTexts? {value after : Literal} (h : value.Floats p)
    (hafter : value.mapTexts? f = some after) : after.Floats p := by
  cases value with
  | string s | duration s =>
      obtain ⟨text, -, rfl⟩ := Option.map_eq_some_iff.mp hafter
      trivial
  | integer _ | float _ | boolean _ | null =>
      obtain rfl := Option.some.inj hafter
      exact h

namespace Expr

/-- What replacing texts brings about in each of some expressions, it does in all. -/
theorem forall_of_mapAllTexts? {r : Expr → Prop} {es after : List Expr}
    (h : ∀ e ∈ es, ∀ {e' : Expr}, e.mapTexts? f = some e' → r e')
    (hafter : mapAllTexts? f es = some after) : ∀ e ∈ after, r e := by
  induction es generalizing after with
  | nil =>
      obtain rfl := Option.some.inj hafter
      simp
  | cons e es ih =>
      obtain ⟨hfirst, hothers⟩ := List.forall_mem_cons.mp h
      obtain ⟨first, hfirst', hafter⟩ := Option.bind_eq_some_iff.mp hafter
      obtain ⟨others, hothers', hafter⟩ := Option.bind_eq_some_iff.mp hafter
      obtain rfl := Option.some.inj hafter
      exact List.forall_mem_cons.mpr ⟨hfirst hfirst', ih hothers hothers'⟩

/-- Replacing texts leaves the constants that are numbers. -/
theorem Floats.of_mapTexts? {e after : Expr} (h : e.Floats p)
    (hafter : e.mapTexts? f = some after) : after.Floats p := by
  induction h generalizing after with
  | field name =>
      obtain ⟨text, -, rfl⟩ := Option.map_eq_some_iff.mp hafter
      exact .field text
  | literal h =>
      obtain ⟨value, hvalue, rfl⟩ := Option.map_eq_some_iff.mp hafter
      exact .literal (h.of_mapTexts? hvalue)
  | call name _ ih =>
      obtain ⟨text, -, hafter⟩ := Option.bind_eq_some_iff.mp hafter
      obtain ⟨args, hargs, hafter⟩ := Option.bind_eq_some_iff.mp hafter
      obtain rfl := Option.some.inj hafter
      exact .call text (forall_of_mapAllTexts? ih hargs)
  | binary op _ _ ihl ihr =>
      obtain ⟨lhs, hlhs, hafter⟩ := Option.bind_eq_some_iff.mp hafter
      obtain ⟨rhs, hrhs, hafter⟩ := Option.bind_eq_some_iff.mp hafter
      obtain rfl := Option.some.inj hafter
      exact .binary op (ihl hlhs) (ihr hrhs)
  | unary op _ ih =>
      obtain ⟨operand, hoperand, rfl⟩ := Option.map_eq_some_iff.mp hafter
      exact .unary op (ih hoperand)
  | paren _ ih =>
      obtain ⟨inner, hinner, rfl⟩ := Option.map_eq_some_iff.mp hafter
      exact .paren (ih hinner)
  | wildcard =>
      obtain rfl := Option.some.inj hafter
      exact .wildcard

end Expr

theorem Query.Floats.of_mapTexts? {q after : Query} (h : q.Floats p)
    (hafter : q.mapTexts? f = some after) : after.Floats p := by
  obtain ⟨sortFields, -, hafter⟩ := Option.bind_eq_some_iff.mp hafter
  obtain ⟨condition, hcondition, hafter⟩ := Option.bind_eq_some_iff.mp hafter
  obtain ⟨dimensions, hdimensions, hafter⟩ := Option.bind_eq_some_iff.mp hafter
  obtain ⟨fields, hfields, hafter⟩ := Option.bind_eq_some_iff.mp hafter
  obtain rfl := Option.some.inj hafter
  refine ⟨?_, ?_, ?_⟩
  · intro e' he'
    obtain rfl : condition = some e' := he'
    cases hfilter : q.filterCondition with
    | none => simp [hfilter] at hcondition
    | some e =>
        have he : e.mapTexts? f = some e' := by simpa [hfilter] using hcondition
        exact (h.filterCondition e hfilter).of_mapTexts? he
  · exact Expr.forall_of_mapAllTexts? (fun e he _ => (h.dimensions e he).of_mapTexts?) hdimensions
  · exact Expr.forall_of_mapAllTexts? (fun e he _ => (h.fields e he).of_mapTexts?) hfields

end Floats

end AggQuery
