import AggQuery.Proofs.Reading.ObjectReader
import AggQuery.Proofs.Reading.Schema

/-!
# Reading does not depend on the layout

A document whose layout is changed is read as the same query, or refused as before
(`Query.ofDocument_relaid`). Each object is read by an `ObjectReader` that follows the table
of its role (`Follows`), so one change is one of the laws of object readers, and the
induction over the depth of the change carries it to the whole document.
-/

namespace AggQuery

variable {σ φ α : Type}

section Roles

/-- What an object is read as. -/
def ObjectRole.Value : ObjectRole → Type
  | .query => Query
  | .sortField => SortField
  | .call | .binary | .unary => Expr

/-- Reading a document in the role of an object. -/
def ObjectRole.read : (role : ObjectRole) → Document → Option role.Value
  | .query, document => (Query.ofDocument document).toOption
  | .sortField, document => (SortField.ofDocument document).toOption
  | .call, document => (Expr.callOfDocument document).toOption
  | .binary, document => (Expr.binaryOfDocument document).toOption
  | .unary, document => (Expr.unaryOfDocument document).toOption

/-- What a part of a query document is read as. -/
def Role.Value : Role → Type
  | .object role => role.Value
  | .list element => List element.Value
  | .optional role => Option role.Value
  | .expr => Expr
  | .scalar => Document

/-- Reading the items of an array. -/
def readItems (take : Document → Option α) : Document → Option (List α)
  | .array items => items.mapM take
  | _ => none

/-- Reading a document unless it is null. -/
def readOptional (take : Document → Option α) : Document → Option (Option α)
  | .null => some none
  | document => (take document).map some

/-- Reading a document in a role. A scalar is kept as it stands. -/
def Role.read : (role : Role) → Document → Option role.Value
  | .object role => role.read
  | .list element => readItems element.read
  | .optional role => readOptional role.read
  | .expr => fun document => (Expr.ofDocument document).toOption
  | .scalar => some

theorem toOption_mapM {ε β : Type} (take : β → Except ε α) (items : List β) :
    (items.mapM take).toOption = items.mapM fun item => (take item).toOption := by
  induction items with
  | nil => rfl
  | cons item items ih =>
      rw [List.mapM_cons, List.mapM_cons, toOption_bind]
      congr 1
      funext x
      rw [toOption_bind, ih]
      rfl

theorem read_list {role : Role} {take : Document → Except ShapeError role.Value}
    (h : ∀ document, role.read document = (take document).toOption) (document : Document) :
    (Role.list role).read document = (listOf take document).toOption := by
  cases document with
  | array items =>
      rw [listOf, toOption_mapM]
      exact congrArg (items.mapM ·) (funext h)
  | _ => rfl

theorem read_exprs (document : Document) :
    (Role.list .expr).read document = (Expr.listOfDocument document).toOption := by
  rw [Expr.listOfDocument_eq]
  exact read_list (fun _ => rfl) document

theorem read_sortFields (document : Document) :
    (Role.list (.object .sortField)).read document =
      (SortField.listOfDocument document).toOption := by
  have h := @read_list (.object .sortField) SortField.ofDocument (fun _ => rfl) document
  cases document <;> exact h

theorem readOptional_of_ne_null (take : Document → Option α) {document : Document}
    (h : document ≠ .null) : readOptional take document = (take document).map some := by
  cases document with
  | null => exact absurd rfl h
  | _ => rfl

theorem conditionOfDocument_of_ne_null {document : Document} (h : document ≠ .null) :
    Query.conditionOfDocument document = some <$> Expr.ofDocument document := by
  cases document with
  | null => exact absurd rfl h
  | _ => rfl

theorem read_condition (document : Document) :
    (Role.optional .expr).read document = (Query.conditionOfDocument document).toOption := by
  by_cases h : document = .null
  · subst h
    rfl
  · rw [Role.read, readOptional_of_ne_null _ h, conditionOfDocument_of_ne_null h, toOption_map]
    rfl

end Roles

/-- A reader takes the fields of a table: their names, the values that are read alike, and
the defaults, which a completed object has anyway. -/
structure ObjectReader.Follows (reader : ObjectReader σ φ α) (schema : φ → FieldSchema)
    (role : ObjectRole) : Prop where
  schema_eq : ∃ fields : List φ, role.schema = fields.map schema ∧ ∀ field, field ∈ fields
  field?_eq_some_iff : ∀ {key field},
    reader.field? key = some field ↔ key ∈ (schema field).names
  readValue_congr : ∀ {field document other},
    (schema field).role.read document = (schema field).role.read other →
      (reader.readValue field document).toOption = (reader.readValue field other).toOption
  readValue_default : ∀ {field document}, (schema field).default? = some document →
    ∃ x, reader.readValue field document = .ok x ∧
      ∀ slots, reader.filled slots field = false →
        reader.finish (reader.set field x slots) = reader.finish slots

/-- The field that a key names is the one among whose names it is. -/
theorem QueryField.ofKey?_eq_some_iff {key : String} {field : QueryField} :
    ofKey? key = some field ↔ key ∈ field.schema.names := by
  have hkeys : field.schema.names = field.keys := by cases field <;> rfl
  rw [hkeys]
  constructor
  · intro h
    simpa using List.find?_some h
  · intro h
    cases field <;> (simp [keys] at h; rcases h with rfl | rfl | rfl <;> rfl)

theorem queryReader_follows : queryReader.Follows QueryField.schema .query where
  schema_eq := ⟨_, rfl, fun field => by cases field <;> simp⟩
  field?_eq_some_iff := QueryField.ofKey?_eq_some_iff
  readValue_congr {field document other} h := by
    cases field with
    | offset | limit => exact congrArg (fun d => (Document.toCount d).toOption) (Option.some.inj h)
    | sortFields => exact (read_sortFields _).symm.trans (h.trans (read_sortFields _))
    | filterCondition => exact (read_condition _).symm.trans (h.trans (read_condition _))
    | dimensions | fields => exact (read_exprs _).symm.trans (h.trans (read_exprs _))
  readValue_default {field document} h := by
    cases field <;>
      (cases h
       refine ⟨_, rfl, ?_⟩
       intro slots hnew
       simp_all [queryReader, QuerySlots.filled, QuerySlots.finish])

theorem sortReader_follows : sortReader.Follows SortKey.schema .sortField where
  schema_eq := ⟨_, rfl, fun field => by cases field <;> simp⟩
  field?_eq_some_iff {key field} := by
    change SortKey.ofKey? key = some field ↔ _
    unfold SortKey.ofKey?
    split <;> cases field <;> simp_all [SortKey.schema]
  readValue_congr {field document other} h := by
    cases field with
    | name => exact congrArg (fun d => (Document.toText d).toOption) (Option.some.inj h)
    | ascending => exact congrArg (fun d => (Document.toBoolean d).toOption) (Option.some.inj h)
  readValue_default {field document} h := by
    cases field with
    | name => cases h
    | ascending =>
        cases h
        refine ⟨_, rfl, ?_⟩
        intro slots hnew
        have hnone : slots.ascending = none := by simpa [sortReader] using hnew
        simp [sortReader, SortSlots.finish, hnone]

theorem callReader_follows : callReader.Follows CallKey.schema .call where
  schema_eq := ⟨_, rfl, fun field => by cases field <;> simp⟩
  field?_eq_some_iff {key field} := by
    change CallKey.ofKey? key = some field ↔ _
    unfold CallKey.ofKey?
    split <;> cases field <;> simp_all [CallKey.schema]
  readValue_congr {field document other} h := by
    cases field with
    | name => exact congrArg (fun d => (Document.toText d).toOption) (Option.some.inj h)
    | args => exact (read_exprs _).symm.trans (h.trans (read_exprs _))
  readValue_default {field document} h := by
    cases field with
    | name => cases h
    | args =>
        cases h
        refine ⟨[], by simp [callReader, Expr.listOfDocument, Expr.ofItems], ?_⟩
        intro slots hnew
        have hnone : slots.args = none := by simpa [callReader] using hnew
        simp [callReader, CallSlots.finish, hnone]

theorem binaryReader_follows : binaryReader.Follows BinaryKey.schema .binary where
  schema_eq := ⟨_, rfl, fun field => by cases field <;> simp⟩
  field?_eq_some_iff {key field} := by
    change BinaryKey.ofKey? key = some field ↔ _
    unfold BinaryKey.ofKey?
    split <;> cases field <;> simp_all [BinaryKey.schema]
  readValue_congr {field document other} h := by
    cases field with
    | op => exact congrArg (fun d => (BinaryOp.ofDocument d).toOption) (Option.some.inj h)
    | lhs | rhs => exact h
  readValue_default {field document} h := by cases field <;> cases h

theorem unaryReader_follows : unaryReader.Follows UnaryKey.schema .unary where
  schema_eq := ⟨_, rfl, fun field => by cases field <;> simp⟩
  field?_eq_some_iff {key field} := by
    change UnaryKey.ofKey? key = some field ↔ _
    unfold UnaryKey.ofKey?
    split <;> cases field <;> simp_all [UnaryKey.schema]
  readValue_congr {field document other} h := by
    cases field with
    | op => exact congrArg (fun d => (UnaryOp.ofDocument d).toOption) (Option.some.inj h)
    | expr => exact h
  readValue_default {field document} h := by cases field <;> cases h

section Objects

variable (fields : Fields)

theorem read_query_object :
    ObjectRole.query.read (.object fields) = (queryReader.read fields).toOption := by
  change (Query.ofDocument (.object fields)).toOption = _
  rw [Query.ofDocument, Query.ofFields_eq, funext₂ takeField_eq]
  rfl

theorem read_sortField_object :
    ObjectRole.sortField.read (.object fields) = (sortReader.read fields).toOption := by
  change (SortField.ofDocument (.object fields)).toOption = _
  rw [SortField.ofDocument, SortField.ofFields_eq, funext₂ takeSort_eq]
  rfl

theorem read_call_object :
    ObjectRole.call.read (.object fields) = (callReader.read fields).toOption := by
  change (Expr.callOfDocument (.object fields)).toOption = _
  rw [Expr.callOfDocument_eq, funext₂ takeCall_eq]
  rfl

theorem read_binary_object :
    ObjectRole.binary.read (.object fields) = (binaryReader.read fields).toOption := by
  change (Expr.binaryOfDocument (.object fields)).toOption = _
  rw [Expr.binaryOfDocument_eq, funext₂ takeBinary_eq]
  rfl

theorem read_unary_object :
    ObjectRole.unary.read (.object fields) = (unaryReader.read fields).toOption := by
  change (Expr.unaryOfDocument (.object fields)).toOption = _
  rw [Expr.unaryOfDocument_eq, funext₂ takeUnary_eq]
  rfl

end Objects

/-- Some reader that follows the table of a role reads its objects. -/
theorem ObjectRole.exists_reader (role : ObjectRole) :
    ∃ (σ φ : Type) (reader : ObjectReader σ φ role.Value) (schema : φ → FieldSchema),
      reader.Follows schema role ∧
        ∀ fields, role.read (.object fields) = (reader.read fields).toOption := by
  cases role with
  | query => exact ⟨_, _, queryReader, _, queryReader_follows, read_query_object⟩
  | sortField => exact ⟨_, _, sortReader, _, sortReader_follows, read_sortField_object⟩
  | call => exact ⟨_, _, callReader, _, callReader_follows, read_call_object⟩
  | binary => exact ⟨_, _, binaryReader, _, binaryReader_follows, read_binary_object⟩
  | unary => exact ⟨_, _, unaryReader, _, unaryReader_follows, read_unary_object⟩

/-- An element of the array form is read into the field of its position. -/
theorem toOption_ofItems_congr {fields : List QueryField} {field : QueryField}
    {value other : Document}
    (h : ∀ slots, (Query.fillField slots field value).toOption =
      (Query.fillField slots field other).toOption)
    {before : List Document} (hfield : fields[before.length]? = some field)
    (after : List Document) (slots : QuerySlots) :
    (Query.ofItems slots fields (before ++ value :: after)).toOption =
      (Query.ofItems slots fields (before ++ other :: after)).toOption := by
  induction before generalizing fields slots with
  | nil =>
      cases fields with
      | nil => cases hfield
      | cons first fields =>
          obtain rfl : first = field := Option.some.inj hfield
          rw [List.nil_append, List.nil_append, Query.ofItems, Query.ofItems, toOption_bind,
            toOption_bind, h]
  | cons item before ih =>
      cases fields with
      | nil => cases hfield
      | cons first fields =>
          rw [List.cons_append, List.cons_append, Query.ofItems, Query.ofItems, toOption_bind,
            toOption_bind]
          congr 1
          funext slots
          exact ih (by simpa using hfield) slots

/-- A document whose layout may change is an array or an object. -/
theorem Relaid.ne_null {role : Role} {value other : Document} (h : Relaid role value other) :
    value ≠ .null ∧ other ≠ .null := by
  induction h with
  | optional _ ih => exact ih
  | _ => exact ⟨nofun, nofun⟩

namespace ObjectReader.Follows

variable {reader : ObjectReader σ φ α} {schema : φ → FieldSchema} {role : ObjectRole}
  {rule : FieldSchema} {key other : String} (hfollows : reader.Follows schema role)

include hfollows

theorem exists_field (h : rule ∈ role.schema) : ∃ field, schema field = rule := by
  obtain ⟨fields, hschema, -⟩ := hfollows.schema_eq
  rw [hschema] at h
  obtain ⟨field, -, heq⟩ := List.mem_map.mp h
  exact ⟨field, heq⟩

theorem mem_schema (field : φ) : schema field ∈ role.schema := by
  obtain ⟨fields, hschema, hall⟩ := hfollows.schema_eq
  rw [hschema]
  exact List.mem_map_of_mem (hall field)

theorem read_renamed (hrule : rule ∈ role.schema) (hkey : key ∈ rule.names)
    (hother : other ∈ rule.names) (value : Document) (before after : Fields) :
    (reader.read (before ++ (key, value) :: after)).toOption =
      (reader.read (before ++ (other, value) :: after)).toOption := by
  obtain ⟨field, rfl⟩ := hfollows.exists_field hrule
  have hfield := hfollows.field?_eq_some_iff.mpr hkey
  have hrenamed := hfollows.field?_eq_some_iff.mpr hother
  apply reader.read_congr
  intro slots
  rw [take_of_field hfield, take_of_field hrenamed]

theorem read_unknown (hkey : ∀ rule ∈ role.schema, key ∉ rule.names) (value : Document)
    (before after : Fields) :
    reader.read (before ++ (key, value) :: after) = reader.read (before ++ after) := by
  apply reader.read_unknown
  cases hfield : reader.field? key with
  | none => rfl
  | some field =>
      exact absurd (hfollows.field?_eq_some_iff.mp hfield) (hkey _ (hfollows.mem_schema field))

theorem read_omitted (hrule : rule ∈ role.schema) (hkey : key ∈ rule.names) {value : Document}
    (hvalue : rule.default? = some value) {before after : Fields}
    (hother : ∀ entry ∈ before ++ after, entry.1 ∉ rule.names) :
    (reader.read (before ++ (key, value) :: after)).toOption =
      (reader.read (before ++ after)).toOption := by
  obtain ⟨field, rfl⟩ := hfollows.exists_field hrule
  obtain ⟨x, hread, hfinish⟩ := hfollows.readValue_default hvalue
  refine reader.read_default (hfollows.field?_eq_some_iff.mpr hkey) hread hfinish ?_
  intro entry hmem hentry
  exact hother entry hmem (hfollows.field?_eq_some_iff.mp hentry)

theorem read_field (hrule : rule ∈ role.schema) (hkey : key ∈ rule.names)
    {value changed : Document} (hread : rule.role.read value = rule.role.read changed)
    (before after : Fields) :
    (reader.read (before ++ (key, value) :: after)).toOption =
      (reader.read (before ++ (key, changed) :: after)).toOption := by
  obtain ⟨field, rfl⟩ := hfollows.exists_field hrule
  have hfield := hfollows.field?_eq_some_iff.mpr hkey
  apply reader.read_congr
  intro slots
  rw [take_of_field hfield, take_of_field hfield]
  split
  · rfl
  · rw [toOption_map, toOption_map, hfollows.readValue_congr hread]

end ObjectReader.Follows

/-- A query may be written as an array, with each field at its position. -/
theorem read_query_array {rule : FieldSchema} {value other : Document} {before : List Document}
    (hrule : ObjectRole.query.schema[before.length]? = some rule)
    (hread : rule.role.read value = rule.role.read other) (after : List Document) :
    (Query.ofDocument (.array (before ++ value :: after))).toOption =
      (Query.ofDocument (.array (before ++ other :: after))).toOption := by
  change (QueryField.all.map QueryField.schema)[before.length]? = some rule at hrule
  rw [List.getElem?_map] at hrule
  obtain ⟨field, hfield, rfl⟩ := Option.map_eq_some_iff.mp hrule
  have hfill (slots : QuerySlots) : (Query.fillField slots field value).toOption =
      (Query.fillField slots field other).toOption := by
    rw [fillField_eq, fillField_eq, toOption_map, toOption_map,
      queryReader_follows.readValue_congr hread]
  have hitems := toOption_ofItems_congr hfill hfield after {}
  rw [Query.ofDocument, Query.ofDocument, toOption_bind, toOption_bind, hitems]
  simp only [List.length_append, List.length_cons]

/-- One change of the layout changes nothing in what is read. -/
theorem Relaid.read_eq {role : Role} {value other : Document} (h : Relaid role value other) :
    role.read value = role.read other := by
  -- A change at an object is a law of its reader; everywhere else the change is further in.
  induction h with
  | @permuted role _ _ h =>
      obtain ⟨_, _, reader, _, -, hread⟩ := role.exists_reader
      exact (hread _).trans ((reader.read_perm h).trans (hread _).symm)
  | @renamed role _ _ _ value hrule hkey hother before after =>
      obtain ⟨_, _, reader, _, hfollows, hread⟩ := role.exists_reader
      have h := hfollows.read_renamed hrule hkey hother value before after
      exact (hread _).trans (h.trans (hread _).symm)
  | @unknown role _ value hkey before after =>
      obtain ⟨_, _, reader, _, hfollows, hread⟩ := role.exists_reader
      have h := hfollows.read_unknown hkey value before after
      exact (hread _).trans ((congrArg _ h).trans (hread _).symm)
  | @omitted role _ _ _ hrule hkey hvalue before after hother =>
      obtain ⟨_, _, reader, _, hfollows, hread⟩ := role.exists_reader
      have h := hfollows.read_omitted hrule hkey hvalue hother
      exact (hread _).trans (h.trans (hread _).symm)
  | @field role _ _ _ _ hrule hkey _ before after ih =>
      obtain ⟨_, _, reader, _, hfollows, hread⟩ := role.exists_reader
      have h := hfollows.read_field hrule hkey ih before after
      exact (hread _).trans (h.trans (hread _).symm)
  | element hrule _ after ih => exact read_query_array hrule ih after
  | item _ before after ih =>
      simp only [Role.read, readItems, List.mapM_append, List.mapM_cons, ih]
      rfl
  | optional h ih =>
      obtain ⟨hvalue, hother⟩ := h.ne_null
      rw [Role.read, readOptional_of_ne_null _ hvalue, readOptional_of_ne_null _ hother, ih]
  | @payload name role _ _ hname _ ih =>
      simp only [ObjectRole.variants, List.mem_cons, Prod.mk.injEq, List.not_mem_nil,
        or_false] at hname
      rcases hname with ⟨rfl, rfl⟩ | ⟨rfl, rfl⟩ | ⟨rfl, rfl⟩ <;> exact ih
  | @paren value other _ ih =>
      change (Expr.paren <$> Expr.ofDocument value).toOption =
        (Expr.paren <$> Expr.ofDocument other).toOption
      rw [toOption_map, toOption_map]
      exact congrArg _ ih

/-- Documents whose layouts differ are read as the same query: any number of changes, at any
depth, leaves it as it is, and makes no document readable or unreadable. -/
theorem Query.ofDocument_relaid {document other : Document}
    (h : Relation.EqvGen (Relaid (.object .query)) document other) (q : Query) :
    ofDocument document = .ok q ↔ ofDocument other = .ok q := by
  have hread : (ofDocument document).toOption = (ofDocument other).toOption := by
    induction h with
    | rel _ _ h => exact h.read_eq
    | refl _ => rfl
    | symm _ _ _ ih => exact ih.symm
    | trans _ _ _ _ _ ih ih' => exact ih.trans ih'
  rw [← toOption_eq_some_iff, hread, toOption_eq_some_iff]

/-- A query document with a key of its own, a default written out, an alias, and payloads in
another order and with a default. -/
def scatteredDocument : Document :=
  .object [
    ("note", .string "draft"),
    ("filter", .object [("unary", .object [
      ("expr", .object [("field", .string "sold")]), ("op", .string "not")])]),
    ("offset", .ofInt 0),
    ("select", .array [.object [("call", .object [
      ("args", .array []), ("name", .string "now")])]])]

/-- The same query in the shortest form. -/
def tidyDocument : Document :=
  .object [
    ("select", .array [.object [("call", .object [("name", .string "now")])]]),
    ("filter_condition", .object [("unary", .object [
      ("op", .string "not"), ("expr", .object [("field", .string "sold")])])])]

theorem scatteredDocument_relaid :
    Relation.EqvGen (Relaid (.object .query)) scatteredDocument tidyDocument := by
  have hquery := queryReader_follows.mem_schema
  have hcall := callReader_follows.mem_schema
  refine .trans _ _ _ (.rel _ _ (.unknown (by decide) [] _)) ?_
  refine .trans _ _ _
    (.rel _ _ (.omitted (hquery .offset) (by decide) rfl [("filter", _)] _ (by decide))) ?_
  refine .trans _ _ _
    (.rel _ _ (.renamed (hquery .filterCondition) (by decide)
      (by decide : "filter_condition" ∈ _) [] _)) ?_
  refine .trans _ _ _
    (.rel _ _ (.field (hquery .filterCondition) (by decide)
      (.optional (.payload (by decide : ("unary", ObjectRole.unary) ∈ _)
        (.permuted (.swap _ _ [])))) [] _)) ?_
  refine .trans _ _ _
    (.rel _ _ (.field (hquery .fields) (by decide)
      (.item (.payload (by decide : ("call", ObjectRole.call) ∈ _)
        (.omitted (hcall .args) (by decide) rfl [] _ (by decide))) [] []) [_] [])) ?_
  exact .rel _ _ (.permuted (.swap _ _ []))

theorem scatteredDocument_read :
    Relation.EqvGen (Relaid (.object .query)) scatteredDocument tidyDocument ∧
      Query.ofDocument scatteredDocument = .ok
        { filterCondition := some (.unary .not (.field "sold")), fields := [.call "now" []] } :=
  ⟨scatteredDocument_relaid,
    (Query.ofDocument_relaid scatteredDocument_relaid _).mpr (by decide +kernel)⟩

end AggQuery
