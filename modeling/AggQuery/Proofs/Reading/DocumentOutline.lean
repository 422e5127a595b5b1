import AggQuery.Proofs.Reading.Outline
import AggQuery.Proofs.Reading.Relayout

/-!
# Documents are read without repetitions

A document in which an object repeats a field is refused in every role
(`read_eq_none_of_repeats`). Its fields are a list, so the statement is about two names of one
field and about one name given twice alike; whether a text can give one name twice is up to the
way from the text to the document.

## Implementation notes

The induction is on the place of the repetition. A value that is refused makes the object
around it refused (`Refuses`), in whatever order the fields come.
-/

namespace AggQuery

variable {σ φ α : Type}

namespace Document

mutual

/-- The outline of a document. -/
def outline : Document → Outline
  | .array items => .array (outlineItems items)
  | .object fields => .object (outlineFields fields)
  | _ => .scalar

/-- The outlines of the items of an array. -/
def outlineItems : List Document → List Outline
  | [] => []
  | item :: items => outline item :: outlineItems items

/-- The outlines of the fields of an object. -/
def outlineFields : List (String × Document) → OutlineFields
  | [] => []
  | (key, value) :: fields => (some key, outline value) :: outlineFields fields

end

theorem outlineItems_eq_map (items : List Document) : outlineItems items = items.map outline := by
  induction items with
  | nil => rfl
  | cons item items ih => rw [outlineItems, ih, List.map_cons]

theorem outlineFields_eq_map (fields : Fields) :
    outlineFields fields = fields.map fun entry => (some entry.1, entry.2.outline) := by
  induction fields with
  | nil => rfl
  | cons entry fields ih =>
      obtain ⟨key, value⟩ := entry
      rw [outlineFields, ih, List.map_cons]

theorem outline_eq_array {document : Document} {items : List Outline}
    (h : document.outline = .array items) :
    ∃ documents, document = .array documents ∧ items = documents.map outline := by
  cases document with
  | array documents =>
      rw [outline, outlineItems_eq_map] at h
      exact ⟨documents, rfl, (Outline.array.inj h).symm⟩
  | _ => cases h

theorem outline_eq_object {document : Document} {fields : OutlineFields}
    (h : document.outline = .object fields) :
    ∃ given : Fields, document = .object given ∧
      fields = given.map fun entry => (some entry.1, entry.2.outline) := by
  cases document with
  | object given =>
      rw [outline, outlineFields_eq_map] at h
      exact ⟨given, rfl, (Outline.object.inj h).symm⟩
  | _ => cases h

end Document

section Objects

variable {reader : ObjectReader σ φ α} {schema : φ → FieldSchema} {role : ObjectRole}

namespace ObjectReader

/-- An object that gives a field twice is refused. -/
theorem read_twice {fields : Fields} {entry other : String × Document} {field : φ}
    (h : [entry, other].Sublist fields) (hentry : reader.field? entry.1 = some field)
    (hother : reader.field? other.1 = some field) : (reader.read fields).toOption = none := by
  obtain ⟨rest, hperm⟩ := h.exists_perm_append
  have htwice := take_twice hentry hother reader.initial
  rw [read_perm hperm, read]
  simp only [List.cons_append, List.nil_append, List.foldlM_cons, ← bind_assoc]
  rw [toOption_bind, toOption_bind, htwice]
  rfl

/-- An object is refused if the value of one of its fields is. -/
theorem read_of_value {fields : Fields} {entry : String × Document} {field : φ}
    (hmem : entry ∈ fields) (hentry : reader.field? entry.1 = some field)
    (hvalue : (reader.readValue field entry.2).toOption = none) :
    (reader.read fields).toOption = none := by
  obtain ⟨before, after, rfl⟩ := List.append_of_mem hmem
  rw [read_perm List.perm_middle, read, List.foldlM_cons, bind_assoc, toOption_bind,
    take_of_new hentry (reader.filled_initial field), hvalue]
  rfl

/-- A reader refuses values that are refused in the roles of their fields. -/
def Refuses (reader : ObjectReader σ φ α) (schema : φ → FieldSchema) : Prop :=
  ∀ field document, (schema field).role.read document = none →
    (reader.readValue field document).toOption = none

end ObjectReader

theorem queryReader_refuses : queryReader.Refuses QueryField.schema := by
  intro field document h
  cases field with
  | offset | limit => cases h
  | sortFields => exact (read_sortFields _).symm.trans h
  | filterCondition => exact (read_condition _).symm.trans h
  | dimensions | fields => exact (read_exprs _).symm.trans h

theorem sortReader_refuses : sortReader.Refuses SortKey.schema := by
  intro field document h
  cases field <;> cases h

theorem callReader_refuses : callReader.Refuses CallKey.schema := by
  intro field document h
  cases field with
  | name => cases h
  | args => exact (read_exprs _).symm.trans h

theorem binaryReader_refuses : binaryReader.Refuses BinaryKey.schema := by
  intro field document h
  cases field with
  | op => cases h
  | lhs | rhs => exact h

theorem unaryReader_refuses : unaryReader.Refuses UnaryKey.schema := by
  intro field document h
  cases field with
  | op => cases h
  | expr => exact h

/-- Some reader that follows the table of a role, and refuses what it must, reads its objects. -/
theorem ObjectRole.exists_refusing_reader (role : ObjectRole) :
    ∃ (σ φ : Type) (reader : ObjectReader σ φ role.Value) (schema : φ → FieldSchema),
      reader.Follows schema role ∧ reader.Refuses schema ∧
        ∀ fields, role.read (.object fields) = (reader.read fields).toOption := by
  cases role with
  | query =>
      exact ⟨_, _, queryReader, _, queryReader_follows, queryReader_refuses, read_query_object⟩
  | sortField =>
      exact ⟨_, _, sortReader, _, sortReader_follows, sortReader_refuses, read_sortField_object⟩
  | call =>
      exact ⟨_, _, callReader, _, callReader_follows, callReader_refuses, read_call_object⟩
  | binary =>
      exact ⟨_, _, binaryReader, _, binaryReader_follows, binaryReader_refuses, read_binary_object⟩
  | unary =>
      exact ⟨_, _, unaryReader, _, unaryReader_follows, unaryReader_refuses, read_unary_object⟩

end Objects

/-- The array form of a query is refused if the value at the position of a field is. -/
theorem ofItems_of_value {fields : List QueryField} {items : List Document} {field : QueryField}
    {value : Document} (hmem : (field, value) ∈ fields.zip items)
    (hvalue : (queryReader.readValue field value).toOption = none) (slots : QuerySlots) :
    (Query.ofItems slots fields items).toOption = none := by
  induction fields generalizing items slots with
  | nil => cases hmem
  | cons first fields ih =>
      cases items with
      | nil => cases hmem
      | cons item items =>
          rw [Query.ofItems, toOption_bind, fillField_eq]
          rcases List.mem_cons.mp hmem with heq | hmem
          · obtain ⟨rfl, rfl⟩ := Prod.mk.inj heq
            rw [toOption_map, hvalue]
            rfl
          · cases (queryReader.readValue first item) with
            | error e => rfl
            | ok x => exact ih hmem _

theorem mapM_eq_none {take : Document → Option α} {items : List Document} {item : Document}
    (hmem : item ∈ items) (h : take item = none) : items.mapM take = none := by
  induction items with
  | nil => cases hmem
  | cons first items ih =>
      rw [List.mapM_cons]
      rcases List.mem_cons.mp hmem with rfl | hmem
      · rw [h]
        rfl
      · rw [ih hmem]
        cases take first <;> rfl

/-- A query in its array form is refused if the value at the position of a field is. -/
theorem read_query_element {rule : FieldSchema} {items : List Document} {item : Document}
    (hmem : (rule, item) ∈ ObjectRole.query.schema.zip items)
    (hitem : rule.role.read item = none) : ObjectRole.query.read (.array items) = none := by
  have hschema : ObjectRole.query.schema = QueryField.all.map QueryField.schema := rfl
  rw [hschema, List.zip_map_left] at hmem
  obtain ⟨⟨field, value⟩, hpair, heq⟩ := List.mem_map.mp hmem
  obtain ⟨rfl, rfl⟩ := Prod.mk.inj heq
  change (Query.ofDocument (.array items)).toOption = none
  rw [Query.ofDocument, toOption_bind,
    ofItems_of_value hpair (queryReader_refuses field value hitem)]
  rfl

/-- An expression is refused if its payload is. -/
theorem read_expr_payload {fields : Fields} {name : String} {role : ObjectRole} {value : Document}
    (hname : (name, role) ∈ ObjectRole.variants) (hmem : (name, value) ∈ fields)
    (hvalue : role.read value = none) : Role.expr.read (.object fields) = none := by
  change (Expr.ofDocument (.object fields)).toOption = none
  cases hread : Expr.ofDocument (.object fields) with
  | error e => rfl
  | ok e =>
      simp only [ObjectRole.variants, List.mem_cons, Prod.mk.injEq, List.not_mem_nil,
        or_false] at hname
      rcases hname with ⟨rfl, rfl⟩ | ⟨rfl, rfl⟩ | ⟨rfl, rfl⟩
      · have hpayload : Expr.callOfDocument value = .ok e :=
          Expr.payload_eq_ok hread hmem .call rfl
        cases (congrArg Except.toOption hpayload).symm.trans hvalue
      · have hpayload : Expr.binaryOfDocument value = .ok e :=
          Expr.payload_eq_ok hread hmem .binary rfl
        cases (congrArg Except.toOption hpayload).symm.trans hvalue
      · have hpayload : Expr.unaryOfDocument value = .ok e :=
          Expr.payload_eq_ok hread hmem .unary rfl
        cases (congrArg Except.toOption hpayload).symm.trans hvalue

/-- An expression is refused if what its parentheses hold is. -/
theorem read_expr_paren {fields : Fields} {value : Document} (hmem : ("paren", value) ∈ fields)
    (hvalue : Role.expr.read value = none) : Role.expr.read (.object fields) = none := by
  change (Expr.ofDocument (.object fields)).toOption = none
  cases hread : Expr.ofDocument (.object fields) with
  | error e => rfl
  | ok e =>
      obtain ⟨inner, hinner⟩ := exists_of_map_eq_ok (Expr.payload_eq_ok hread hmem .paren rfl)
      cases (congrArg Except.toOption hinner).symm.trans hvalue

/-- A document in which an object repeats a field is refused. -/
theorem read_eq_none_of_repeats {role : Role} {document : Document}
    (h : document.outline.Repeats role) : role.read document = none := by
  generalize houtline : document.outline = outline at h
  induction h generalizing document with
  | @twice role rule fields first second hrule hfirst hsecond hsublist =>
      obtain ⟨given, rfl, rfl⟩ := Document.outline_eq_object houtline
      obtain ⟨σ, φ, reader, schema, hfollows, hrefuses, hread⟩ := role.exists_refusing_reader
      obtain ⟨field, rfl⟩ := hfollows.exists_field hrule
      obtain ⟨both, hboth, heq⟩ := List.sublist_map_iff.mp hsublist
      obtain ⟨entry, others, rfl, rfl, hothers⟩ := List.map_eq_cons_iff.mp heq.symm
      obtain ⟨other, _, rfl, rfl, hnil⟩ := List.map_eq_cons_iff.mp hothers
      obtain rfl := List.map_eq_nil_iff.mp hnil
      have hkey {name : String} (hname : (schema field).Names (some name)) :
          reader.field? name = some field :=
        hfollows.field?_eq_some_iff.mpr (FieldSchema.names_some.mp hname)
      exact (hread given).trans (ObjectReader.read_twice hboth (hkey hfirst) (hkey hsecond))
  | @field role rule fields entry hrule hname hmem _ ih =>
      obtain ⟨given, rfl, rfl⟩ := Document.outline_eq_object houtline
      obtain ⟨σ, φ, reader, schema, hfollows, hrefuses, hread⟩ := role.exists_refusing_reader
      obtain ⟨field, rfl⟩ := hfollows.exists_field hrule
      obtain ⟨entry, hgiven, rfl⟩ := List.mem_map.mp hmem
      have hkey := hfollows.field?_eq_some_iff.mpr (FieldSchema.names_some.mp hname)
      exact (hread given).trans
        (ObjectReader.read_of_value hgiven hkey (hrefuses field entry.2 (ih rfl)))
  | @element role rule items item hmem h ih =>
      obtain ⟨documents, rfl, rfl⟩ := Document.outline_eq_array houtline
      rw [List.zip_map_right] at hmem
      obtain ⟨⟨place, value⟩, hpair, heq⟩ := List.mem_map.mp hmem
      obtain ⟨rfl, rfl⟩ := Prod.mk.inj heq
      cases role with
      | query => exact read_query_element hpair (ih rfl)
      | sortField =>
          have hrole : place.role = .scalar := by
            have hplace := (List.of_mem_zip hpair).1
            simp only [ObjectRole.schema, List.map_cons, List.map_nil, List.mem_cons,
              List.not_mem_nil, or_false] at hplace
            rcases hplace with rfl | rfl <;> rfl
          change value.outline.Repeats place.role at h
          rw [hrole] at h
          exact (Outline.not_repeats_scalar _ h).elim
      | call => exact congrArg Except.toOption (Expr.callOfDocument_eq (.array documents))
      | binary => exact congrArg Except.toOption (Expr.binaryOfDocument_eq (.array documents))
      | unary => exact congrArg Except.toOption (Expr.unaryOfDocument_eq (.array documents))
  | @item role items item hmem _ ih =>
      obtain ⟨documents, rfl, rfl⟩ := Document.outline_eq_array houtline
      obtain ⟨value, hvalue, rfl⟩ := List.mem_map.mp hmem
      exact mapM_eq_none hvalue (ih rfl)
  | @optional role outline h ih =>
      have hnull : document ≠ .null := by
        rintro rfl
        rw [← houtline] at h
        exact Outline.scalar_not_repeats h
      rw [Role.read, readOptional_of_ne_null _ hnull, ih houtline]
      rfl
  | @payload name role fields value hname hmem _ ih =>
      obtain ⟨given, rfl, rfl⟩ := Document.outline_eq_object houtline
      obtain ⟨⟨key, inner⟩, hgiven, heq⟩ := List.mem_map.mp hmem
      obtain ⟨hkey, rfl⟩ := Prod.mk.inj heq
      obtain rfl := Option.some.inj hkey
      exact read_expr_payload hname hgiven (ih rfl)
  | @paren fields value hmem _ ih =>
      obtain ⟨given, rfl, rfl⟩ := Document.outline_eq_object houtline
      obtain ⟨⟨key, inner⟩, hgiven, heq⟩ := List.mem_map.mp hmem
      obtain ⟨hkey, rfl⟩ := Prod.mk.inj heq
      obtain rfl := Option.some.inj hkey
      exact read_expr_paren hgiven (ih rfl)

end AggQuery
