import AggQuery.Proofs.Document.FloatText
import AggQuery.Proofs.Reading.Expressions
import AggQuery.Reading.OfInput

/-!
# Queries read like their documents

The two routes to a query agree: a document that is read as a query is read as the same
query from its compact text, and the other way round unless the payload of a call or an
operation is an array somewhere in it. Sort criteria and queries themselves may be arrays
in either route.
-/

namespace AggQuery

open Lexeme Document TextReader

variable {α σ : Type}

section Positions

/-- Behind the items that were read, the array ends in both routes or in neither. -/
theorem agrees_endOfArray (items : List Document) (x : α) (e : ShapeError) (rest : List Char) :
    Agrees rest (do .ok (x, ← endOfArray (compactItemsOnto items (']' :: rest))))
      (if items.isEmpty then .ok x else .error e) := by
  cases items with
  | nil =>
      rw [compactItemsOnto, endOfArray_close]
      exact .value x
  | cons item items => exact .failure _ e

/-- The first of some elements agrees with the first item. -/
theorem agrees_nextOf {element : List Char → Except ReadError (α × List Char)} {item : Document}
    {expected : Except ShapeError α} (hlegible : item.Legible NumberReads)
    (h : ReadsLike element item expected) (wanted : String) (items : List Document)
    (rest : List Char) :
    Agrees (compactItemsOnto items (']' :: rest))
      (Expr.nextOf wanted 0 element (itemsOnto (item :: items) rest)) expected := by
  rw [itemsOnto, Expr.nextOf]
  change Agrees _ (nextElement true (compactOnto item _) >>= _) _
  rw [nextElement_first hlegible]
  exact h _ (endsNumber_compactItemsOnto items rest)

end Positions

namespace SortField

/-- Taking one field of a sort criterion. -/
def takeSort (slots : SortSlots) (entry : String × Document) : Except ShapeError SortSlots :=
  match SortKey.ofKey? entry.1 with
  | none => .ok slots
  | some .name => takeMember slots.name.isSome "name" entry.2.toText fun name =>
      { slots with name := some name }
  | some .ascending => takeMember slots.ascending.isSome "ascending" entry.2.toBoolean
      fun ascending => { slots with ascending := some ascending }

theorem ofFields_eq (slots : SortSlots) (fields : Fields) :
    ofFields slots fields = fields.foldlM takeSort slots := by
  induction fields generalizing slots with
  | nil => rfl
  | cons entry fields ih =>
      obtain ⟨key, value⟩ := entry
      rw [ofFields, List.foldlM_cons, takeSort]
      cases SortKey.ofKey? key with
      | none => exact ih slots
      | some field =>
          cases field with
          | name => exact takeMember_bind fun _ => ih _
          | ascending => exact takeMember_bind fun _ => ih _

section Start

variable {budget : Nat}

theorem agrees_fields {fields : Fields} (hlegible : (Document.object fields).Legible NumberReads)
    (hdepth : (Document.object fields).depth ≤ budget) (rest : List Char) :
    Agrees rest (ofText budget ('\x7b' :: fieldsOnto fields rest))
      (ofDocument (.object fields)) := by
  obtain ⟨less, rfl⟩ := Nat.exists_eq_succ_of_ne_zero (budget_ne_zero hdepth)
  rw [ofDocument, ofFields_eq]
  apply agrees_completed
  constructor
  constructor
  · intro text
    rw [ofText, skipBlanks_cons (by decide)]
    rfl
  rintro ⟨key, value⟩ hmem slots rest hrest
  have hvalue := hlegible.of_mem hmem
  rw [takeSort]
  dsimp only
  cases SortKey.ofKey? key with
  | none => exact agrees_ignored hvalue slots hrest
  | some field =>
      cases field with
      | name => exact agrees_member (readsLike_string hvalue _) _ _ _ hrest
      | ascending => exact agrees_member (readsLike_boolean hvalue) _ _ _ hrest

/-- The array form holds the name, and perhaps the direction behind it. -/
theorem agrees_items {items : List Document}
    (hlegible : (Document.array items).Legible NumberReads)
    (hdepth : (Document.array items).depth ≤ budget) (rest : List Char) :
    Agrees rest (ofText budget ('[' :: itemsOnto items rest)) (ofDocument (.array items)) := by
  obtain ⟨less, rfl⟩ := Nat.exists_eq_succ_of_ne_zero (budget_ne_zero_of_array hdepth)
  rw [ofText, skipBlanks_cons (by decide), ofDocument]
  cases items with
  | nil => exact .failure _ _
  | cons name items =>
      obtain ⟨hname, hitems⟩ := List.forall_mem_cons.mp hlegible.of_mem_items
      have hfirst := agrees_nextOf hname (readsLike_string hname "a string")
        "struct SortField with 2 elements" items rest
      cases items with
      | nil =>
          refine hfirst.bind fun text => ?_
          dsimp only
          rw [compactItemsOnto, nextElement_close]
          exact agrees_endOfArray [] _ (.missingField "") rest
      | cons ascending more =>
          obtain ⟨hascending, -⟩ := List.forall_mem_cons.mp hitems
          refine hfirst.bind fun text => ?_
          dsimp only
          rw [compactItemsOnto, nextElement_comma hascending]
          apply (readsLike_boolean hascending _ (endsNumber_compactItemsOnto more rest)).bind
          intro truth
          exact agrees_endOfArray more _ _ rest

end Start

theorem readsLike_ofText {document : Document} (hlegible : document.Legible NumberReads)
    {budget : Nat} (hdepth : document.depth ≤ budget) :
    ReadsLike (ofText budget) document (ofDocument document) := by
  apply readsLike_brackets hlegible
  · rintro fields rfl rest
    exact agrees_fields hlegible hdepth rest
  · rintro items rfl rest
    exact agrees_items hlegible hdepth rest
  · intro hscalar
    cases document with
    | object | array => cases hscalar
    | _ => exact ⟨_, rfl⟩
  · intro c text hblank hobject harray
    simp [ofText, skipBlanks_cons hblank, harray, hobject]

theorem readsLike_list {document : Document} (hlegible : document.Legible NumberReads)
    {budget : Nat} (hdepth : document.depth ≤ budget) :
    ReadsLike (listOfText budget) document (listOfDocument document) := by
  have hlist : listOfDocument document = listOf ofDocument document := by cases document <;> rfl
  rw [hlist]
  apply readsLike_listOf hlegible
  · rintro items rfl
    refine ⟨ofText (budget - 1), ?_, ?_⟩
    · intro text
      rw [listOfText, skipBlanks_cons (by decide)]
      exact if_neg (budget_ne_zero_of_array hdepth)
    · intro item hmem
      have hless := depth_lt_of_mem_items hmem
      exact readsLike_ofText (hlegible.of_mem_items item hmem) (by omega)
  · intro c text hblank harray
    simp [listOfText, skipBlanks_cons hblank, harray]

end SortField

/-- The documents that are read as expressions in the value of a field. -/
def QueryField.expressions (field : QueryField) (value : Document) : List Document :=
  match field, value with
  | .filterCondition, value => [value]
  | .dimensions, .array items | .fields, .array items => items
  | _, _ => []

namespace Query

/-- The payload of a call or an operation is an array somewhere in a query document. -/
inductive HasArrayPayload : Document → Prop
  | field {fields : Fields} {key : String} {value expr : Document} {field : QueryField}
      (hmem : (key, value) ∈ fields) (hkey : QueryField.ofKey? key = some field)
      (hexpr : expr ∈ field.expressions value) (h : Expr.HasArrayPayload expr) :
      HasArrayPayload (.object fields)
  | element {items : List Document} {value expr : Document} {field : QueryField}
      (hmem : (field, value) ∈ QueryField.all.zip items) (hexpr : expr ∈ field.expressions value)
      (h : Expr.HasArrayPayload expr) : HasArrayPayload (.array items)

section Fields

variable {value : Document} (hlegible : value.Legible NumberReads) {budget : Nat}
  (hdepth : value.depth ≤ budget)

include hlegible hdepth

theorem readsLike_condition (hnone : ¬Expr.HasArrayPayload value) :
    ReadsLike (conditionOfText budget) value (conditionOfDocument value) := by
  intro rest hrest
  obtain ⟨c, text, htext, hblank, hopens⟩ := exists_opening hlegible rest
  have hexpr := (Expr.readsLike_ofText budget value hlegible hdepth hnone rest hrest).map some
  cases value with
  | null => exact .value none
  | _ =>
    have hnull : c ≠ 'n' := by
      rintro rfl
      simp [Opens] at hopens
    have hreader : conditionOfText budget (c :: text) =
        (Expr.ofText budget (c :: text)).map fun read => (some read.1, read.2) := by
      simp [conditionOfText, skipBlanks_cons hblank, hnull]
    rw [htext] at hexpr ⊢
    rw [hreader]
    exact hexpr

theorem readsLike_field (slots : QuerySlots) (field : QueryField)
    (hnone : ∀ expr ∈ field.expressions value, ¬Expr.HasArrayPayload expr) :
    ReadsLike (fieldOfText budget slots field) value (fillField slots field value) := by
  have hlist (h : ∀ items, value = .array items → ∀ item ∈ items, ¬Expr.HasArrayPayload item) :=
    Expr.readsLike_list (fun less _ => Expr.readsLike_ofText less) hlegible hdepth h
  intro rest hrest
  cases field with
  | offset =>
      exact (readsLike_count hlegible rest hrest).put fun x => { slots with offset := some x }
  | limit =>
      exact (readsLike_count hlegible rest hrest).put fun x => { slots with limit := some x }
  | sortFields =>
      exact (SortField.readsLike_list hlegible hdepth rest hrest).put fun x =>
        { slots with sortFields := some x }
  | filterCondition =>
      have hcondition := readsLike_condition hlegible hdepth (hnone value List.mem_cons_self)
      exact (hcondition rest hrest).put fun x => { slots with filterCondition := some x }
  | dimensions =>
      refine (hlist ?_ rest hrest).put fun x => { slots with dimensions := some x }
      rintro items rfl
      exact hnone
  | fields =>
      refine (hlist ?_ rest hrest).put fun x => { slots with fields := some x }
      rintro items rfl
      exact hnone

end Fields

/-- Taking one field of a query. -/
def takeField (slots : QuerySlots) (entry : String × Document) : Except ShapeError QuerySlots :=
  match QueryField.ofKey? entry.1 with
  | none => .ok slots
  | some field =>
    if slots.filled field then .error (.duplicateField field.name)
    else fillField slots field entry.2

theorem ofFields_eq (slots : QuerySlots) (fields : Fields) :
    ofFields slots fields = fields.foldlM takeField slots := by
  induction fields generalizing slots with
  | nil => rfl
  | cons entry fields ih =>
      obtain ⟨key, value⟩ := entry
      rw [ofFields, List.foldlM_cons, takeField]
      cases QueryField.ofKey? key with
      | none => exact ih slots
      | some field =>
          dsimp only
          split
          · rfl
          · exact bind_congr fun slots => ih slots

/-- One element is read into its field, and the rest goes to the fields behind it. -/
theorem elementsOfText_step {first : Bool} {text text' : List Char}
    (h : nextElement first text = .ok (some text')) (budget : Nat) (slots : QuerySlots)
    (field : QueryField) (fields : List QueryField) :
    elementsOfText budget slots first (field :: fields) text =
      fieldOfText budget slots field text' >>= fun (slots, rest) =>
        elementsOfText budget slots false fields rest := by
  rw [elementsOfText, h]
  rfl

/-- The elements of the array form agree with the fields that are filled in order. -/
theorem agrees_elementsOfText {budget : Nat} {items : List Document} {fields : List QueryField}
    (hlegible : ∀ item ∈ items, item.Legible NumberReads)
    (hdepth : ∀ item ∈ items, item.depth ≤ budget)
    (hnone : ∀ field value, (field, value) ∈ fields.zip items →
      ∀ expr ∈ field.expressions value, ¬Expr.HasArrayPayload expr)
    (slots : QuerySlots) (e : ShapeError) (rest : List Char) :
    Agrees rest
      (do
        let (slots, rest) ← elementsOfText budget slots false fields
          (compactItemsOnto items (']' :: rest))
        .ok (slots.finish, ← endOfArray rest))
      (do
        let (slots, more) ← ofItems slots fields items
        if more.isEmpty then .ok slots.finish else .error e) := by
  induction fields generalizing slots items with
  | nil => exact agrees_endOfArray items slots.finish e rest
  | cons field fields ih =>
      cases items with
      | nil => exact agrees_endOfArray [] slots.finish e rest
      | cons item items =>
          obtain ⟨hitem, hitems⟩ := List.forall_mem_cons.mp hlegible
          obtain ⟨hitemDepth, hitemsDepth⟩ := List.forall_mem_cons.mp hdepth
          have hfield := readsLike_field hitem hitemDepth slots field
            (hnone field item List.mem_cons_self)
          rw [compactItemsOnto, elementsOfText_step (nextElement_comma hitem _), ofItems,
            bind_assoc, bind_assoc]
          apply (hfield _ (endsNumber_compactItemsOnto items rest)).bind
          intro slots
          exact ih hitems hitemsDepth
            (fun field value hmem => hnone field value (List.mem_cons_of_mem _ hmem)) slots

section Start

variable {document : Document} (hlegible : document.Legible NumberReads) {budget : Nat}
  (hdepth : document.depth ≤ budget) (hnone : ¬HasArrayPayload document)

include hlegible hdepth hnone

theorem agrees_fields {fields : Fields} (h : document = .object fields) (rest : List Char) :
    Agrees rest (startOfText budget ('\x7b' :: fieldsOnto fields rest)) (ofDocument document) := by
  subst h
  rw [ofDocument, ofFields_eq]
  apply @agrees_completed _ _ _ _ _ fun slots => .ok (QuerySlots.finish slots)
  constructor
  constructor
  · intro text
    rw [startOfText, skipBlanks_cons (by decide)]
    exact if_neg (budget_ne_zero hdepth)
  rintro ⟨key, value⟩ hmem slots rest hrest
  have hvalue := hlegible.of_mem hmem
  have hless := depth_lt_of_mem_fields hmem
  rw [takeField]
  dsimp only
  cases hkey : QueryField.ofKey? key with
  | none => exact agrees_ignored hvalue slots hrest
  | some field =>
      dsimp only
      split
      · exact .failure _ _
      · rw [colon, skipBlanks_cons (by decide)]
        apply readsLike_field hvalue (by omega) slots field _ rest hrest
        exact fun expr hexpr h => hnone (.field hmem hkey hexpr h)

theorem agrees_items {items : List Document} (h : document = .array items) (rest : List Char) :
    Agrees rest (startOfText budget ('[' :: itemsOnto items rest)) (ofDocument document) := by
  subst h
  obtain ⟨less, rfl⟩ := Nat.exists_eq_succ_of_ne_zero (budget_ne_zero_of_array hdepth)
  rw [startOfText, skipBlanks_cons (by decide), ofDocument]
  cases items with
  | nil => exact agrees_endOfArray [] _ (.missingField "") rest
  | cons item items =>
      have hdepths : ∀ other ∈ item :: items, other.depth ≤ less := by
        intro other hmem
        have := depth_lt_of_mem_items hmem
        omega
      obtain ⟨hitem, hitems⟩ := List.forall_mem_cons.mp hlegible.of_mem_items
      obtain ⟨hitemDepth, hitemsDepth⟩ := List.forall_mem_cons.mp hdepths
      have hfield := readsLike_field hitem hitemDepth {} .offset
        fun expr hexpr h => hnone (.element List.mem_cons_self hexpr h)
      rw [QueryField.all, ofItems, itemsOnto]
      change Agrees rest (elementsOfText _ _ _ _ _ >>= _) _
      rw [elementsOfText_step (nextElement_first hitem _), bind_assoc, bind_assoc]
      apply (hfield _ (endsNumber_compactItemsOnto items rest)).bind
      intro slots
      apply agrees_elementsOfText hitems hitemsDepth
      exact fun field value hmem expr hexpr h =>
        hnone (.element (List.mem_cons_of_mem _ hmem) hexpr h)

/-- A document is read alike from its text as a query. -/
theorem readsLike_startOfText : ReadsLike (startOfText budget) document (ofDocument document) := by
  apply readsLike_brackets hlegible
  · rintro fields rfl rest
    exact agrees_fields hlegible hdepth hnone rfl rest
  · rintro items rfl rest
    exact agrees_items hlegible hdepth hnone rfl rest
  · intro hscalar
    cases document with
    | object | array => cases hscalar
    | _ => exact ⟨_, rfl⟩
  · intro c text hblank hobject harray
    simp [startOfText, skipBlanks_cons hblank, harray, hobject]

end Start

section Refusal

variable {before after : QuerySlots} {field : QueryField} {value : Document}

/-- The value of a field that is filled holds expressions without array payloads. -/
theorem not_hasArrayPayload_of_fillField (h : fillField before field value = .ok after)
    {expr : Document} (hexpr : expr ∈ field.expressions value) : ¬Expr.HasArrayPayload expr := by
  have hlist {items : List Document} {exprs : List Expr}
      (h : Expr.listOfDocument (.array items) = .ok exprs) (hmem : expr ∈ items) :
      ¬Expr.HasArrayPayload expr := by
    rw [Expr.listOfDocument_eq] at h
    obtain ⟨e, he⟩ := exists_of_mapM_eq_ok h hmem
    exact Expr.not_hasArrayPayload he
  cases field with
  | offset | limit | sortFields => cases hexpr
  | filterCondition =>
      obtain rfl := List.mem_singleton.mp hexpr
      obtain ⟨condition, hcondition, -⟩ := exists_of_bind_eq_ok h
      cases expr with
      | null => exact fun h => nomatch h
      | _ =>
          obtain ⟨e, he⟩ := exists_of_map_eq_ok hcondition
          exact Expr.not_hasArrayPayload he
  | dimensions =>
      obtain ⟨exprs, hexprs, -⟩ := exists_of_bind_eq_ok h
      cases value with
      | array items => exact hlist hexprs hexpr
      | _ => cases hexpr
  | fields =>
      obtain ⟨exprs, hexprs, -⟩ := exists_of_bind_eq_ok h
      cases value with
      | array items => exact hlist hexprs hexpr
      | _ => cases hexpr

/-- Where the array form is read, each item has filled its field. -/
theorem exists_of_ofItems_eq_ok {slots : QuerySlots} {fields : List QueryField}
    {items : List Document} {result : QuerySlots × List Document}
    (h : ofItems slots fields items = .ok result) (hmem : (field, value) ∈ fields.zip items) :
    ∃ before after, fillField before field value = .ok after := by
  induction fields generalizing slots items with
  | nil => cases hmem
  | cons first fields ih =>
      cases items with
      | nil => cases hmem
      | cons item items =>
          obtain ⟨next, hfirst, hrest⟩ := exists_of_bind_eq_ok h
          rcases List.mem_cons.mp hmem with heq | hmem
          · obtain ⟨rfl, rfl⟩ := Prod.mk.inj heq
            exact ⟨slots, next, hfirst⟩
          · exact ih hrest hmem

/-- No document that is read as a query has an array for the payload of a call or an
operation. -/
theorem not_hasArrayPayload {document : Document} {q : Query} (h : ofDocument document = .ok q) :
    ¬HasArrayPayload document := by
  intro harray
  cases harray with
  | field hmem hkey hexpr harray =>
      rw [ofDocument, ofFields_eq] at h
      obtain ⟨slots, hslots, -⟩ := exists_of_bind_eq_ok h
      obtain ⟨before, after, htake⟩ := exists_of_foldlM_eq_ok hslots hmem
      rw [takeField, hkey] at htake
      dsimp only at htake
      split at htake
      · cases htake
      · exact not_hasArrayPayload_of_fillField htake hexpr harray
  | element hmem hexpr harray =>
      obtain ⟨result, hresult, -⟩ := exists_of_bind_eq_ok h
      obtain ⟨before, after, hfill⟩ := exists_of_ofItems_eq_ok hresult hmem
      exact not_hasArrayPayload_of_fillField hfill hexpr harray

end Refusal

section Routes

variable {document : Document} (hlegible : document.Legible NumberReads)
  (hdepth : document.depth ≤ nestingLimit)

include hlegible hdepth

/-- Without array payloads the text of a document is read as the document is. -/
theorem ofInput_compact_iff (hnone : ¬HasArrayPayload document) (q : Query) :
    ofInput .json document.compact = .ok q ↔ ofDocument document = .ok q := by
  have hagrees := readsLike_startOfText hlegible hdepth hnone [] (by simp [EndsNumber])
  have htext : document.compact.toList = compactOnto document [] := by simp [compact]
  rw [ofInput, ofText, htext]
  generalize startOfText nestingLimit (compactOnto document []) = result at hagrees ⊢
  generalize ofDocument document = expected at hagrees ⊢
  cases hagrees with
  | value found =>
      change Except.ok found = .ok q ↔ Except.ok found = .ok q
      rw [Except.ok.injEq, Except.ok.injEq]
  | failure e e' =>
      constructor
      · intro h
        cases h
      · intro h
        cases h

/-- The two routes to a query agree: what is read as a query from a document is read as the
same query from its text, and the other way round, unless the payload of a call or an
operation is an array, which only a text may have. -/
theorem ofDocument_eq_ok_iff (q : Query) :
    ofDocument document = .ok q ↔
      ofInput .json document.compact = .ok q ∧ ¬HasArrayPayload document := by
  constructor
  · intro h
    have hnone := not_hasArrayPayload h
    exact ⟨(ofInput_compact_iff hlegible hdepth hnone q).mpr h, hnone⟩
  · rintro ⟨h, hnone⟩
    exact (ofInput_compact_iff hlegible hdepth hnone q).mp h

end Routes

end Query

/-- A query document with other names of fields, left out ones, an unknown one, a sort
criterion as an array and a variant as an object. -/
def aliasedDocument : Document :=
  .object [
    ("select", .array [
      .object [("call", .object [("args", .array [.object [("wildcard", .null)]]),
        ("name", .string "count")])]]),
    ("note", .array [.object [("depth", .ofInt (-1))]]),
    ("condition", .object [("unary", .object [("op", .object [("not", .null)]),
      ("expr", .object [("field", .string "sold")]), ("hint", .null)])]),
    ("sort", .array [.array [.string "price", .boolean false], .array [.string "name"]]),
    ("limit", .ofInt 20)]

theorem aliasedDocument_legible : aliasedDocument.Legible NumberReads := by
  have hdepth : NumberReads (.integer (-1)) := numberReads_integer (by decide) (by decide)
  have hlimit : NumberReads (.integer 20) := numberReads_integer (by decide) (by decide)
  simp [aliasedDocument, ofInt, Fields.keys, hdepth, hlimit]

theorem aliasedDocument_readAlike :
    aliasedDocument.Legible NumberReads ∧ aliasedDocument.depth ≤ nestingLimit ∧
      Query.ofInput .json aliasedDocument.compact = .ok
        { limit := 20
          sortFields := [⟨"price", false⟩, ⟨"name", true⟩]
          filterCondition := some (.unary .not (.field "sold"))
          fields := [.call "count" [.wildcard]] } ∧
      ¬Query.HasArrayPayload aliasedDocument := by
  have hdepth : aliasedDocument.depth ≤ nestingLimit := by decide
  exact ⟨aliasedDocument_legible, hdepth,
    (Query.ofDocument_eq_ok_iff aliasedDocument_legible hdepth _).mp (by decide +kernel)⟩

example :
    let document : Document :=
      .object [("fields", .array [.object [("call", .array [.string "avg"])]])]
    Query.ofInput .json document.compact = .ok { fields := [.call "avg" []] } ∧
      Query.ofDocument document = .error (.invalidType .sequence "struct variant") := by
  decide +kernel

end AggQuery
