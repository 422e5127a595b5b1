import AggQuery.Proofs.Document.Legible

/-!
# The strings of a document

`Document.mapStrings?` replaces every string value of a document, as far as each of them can be
replaced; keys, numbers and the shape of the tree stay. `Document.strings` lists those values.
-/

namespace AggQuery.Document

mutual

/-- The document with its string values replaced; `none` if one of them cannot be. -/
def mapStrings? (f : String → Option String) : Document → Option Document
  | .string s => (f s).map .string
  | .array items => (mapItems? f items).map .array
  | .object fields => (mapFields? f fields).map .object
  | .null => some .null
  | .boolean b => some (.boolean b)
  | .number n => some (.number n)

/-- The items of an array with their string values replaced. -/
def mapItems? (f : String → Option String) : List Document → Option (List Document)
  | [] => some []
  | item :: items => do some ((← item.mapStrings? f) :: (← mapItems? f items))

/-- The fields of an object with their string values replaced. -/
def mapFields? (f : String → Option String) : Fields → Option Fields
  | [] => some []
  | (key, value) :: fields => do some ((key, ← value.mapStrings? f) :: (← mapFields? f fields))

end

theorem mapItems?_cons (f : String → Option String) (item : Document) (items : List Document) :
    mapItems? f (item :: items) =
      (item.mapStrings? f).bind fun item => (mapItems? f items).map (item :: ·) := by
  rw [mapItems?]
  cases item.mapStrings? f <;> cases mapItems? f items <;> rfl

theorem mapFields?_cons (f : String → Option String) (key : String) (value : Document)
    (fields : Fields) : mapFields? f ((key, value) :: fields) =
      (value.mapStrings? f).bind fun value => (mapFields? f fields).map ((key, value) :: ·) := by
  rw [mapFields?]
  cases value.mapStrings? f <;> cases mapFields? f fields <;> rfl

mutual

/-- The string values of a document, in order. -/
def strings : Document → List String
  | .string s => [s]
  | .array items => itemStrings items
  | .object fields => fieldStrings fields
  | .null | .boolean _ | .number _ => []

/-- The string values of the items of an array. -/
def itemStrings : List Document → List String
  | [] => []
  | item :: items => item.strings ++ itemStrings items

/-- The string values of the fields of an object. -/
def fieldStrings : Fields → List String
  | [] => []
  | (_, value) :: fields => value.strings ++ fieldStrings fields

end

section Guard

variable (p : String → Bool) (g : String → Option String)

/-- A replacement for the strings that pass a test only. -/
def guarded (s : String) : Option String := if p s then g s else none

mutual

/-- Where a string does not pass the test, nothing is replaced. -/
theorem mapStrings?_guarded : ∀ document : Document,
    document.mapStrings? (guarded p g) =
      if document.strings.all p then document.mapStrings? g else none
  | .null | .boolean _ | .number _ => rfl
  | .string s => by
      cases hs : p s <;> simp [mapStrings?, guarded, strings, hs]
  | .array items => by
      rw [mapStrings?, strings, mapItems?_guarded items]
      split <;> rfl
  | .object fields => by
      rw [mapStrings?, strings, mapFields?_guarded fields]
      split <;> rfl

theorem mapItems?_guarded : ∀ items : List Document,
    mapItems? (guarded p g) items =
      if (itemStrings items).all p then mapItems? g items else none
  | [] => rfl
  | item :: items => by
      rw [mapItems?, itemStrings, mapStrings?_guarded item, mapItems?_guarded items,
        List.all_append]
      cases item.strings.all p <;> cases (itemStrings items).all p <;>
        cases hfirst : item.mapStrings? g <;> simp [mapItems?, hfirst]

theorem mapFields?_guarded : ∀ fields : Fields,
    mapFields? (guarded p g) fields =
      if (fieldStrings fields).all p then mapFields? g fields else none
  | [] => rfl
  | (key, value) :: fields => by
      rw [mapFields?, fieldStrings, mapStrings?_guarded value, mapFields?_guarded fields,
        List.all_append]
      cases value.strings.all p <;> cases (fieldStrings fields).all p <;>
        cases hfirst : value.mapStrings? g <;> simp [mapFields?, hfirst]

end

end Guard

variable {f : String → Option String} {p : Number → Prop}

mutual

/-- Replacing strings keeps the keys, the numbers and the depth of a document. -/
theorem legible_of_mapStrings? : ∀ {document after : Document},
    document.mapStrings? f = some after → document.Legible p →
      after.Legible p ∧ after.depth = document.depth
  | .null, _, h, hlegible | .boolean _, _, h, hlegible | .number _, _, h, hlegible => by
      obtain rfl := Option.some.inj h
      exact ⟨hlegible, rfl⟩
  | .string s, _, h, _ => by
      obtain ⟨text, -, rfl⟩ := Option.map_eq_some_iff.mp h
      exact ⟨.string text, rfl⟩
  | .array items, _, h, hlegible => by
      obtain ⟨items', hitems, rfl⟩ := Option.map_eq_some_iff.mp h
      obtain ⟨hafter, hdepth⟩ := legible_of_mapItems? hitems hlegible.of_mem_items
      exact ⟨.array hafter, congrArg (· + 1) hdepth⟩
  | .object fields, _, h, hlegible => by
      obtain ⟨fields', hfields, rfl⟩ := Option.map_eq_some_iff.mp h
      obtain ⟨hkeys, hvalues⟩ := (legible_object fields).mp hlegible
      obtain ⟨hsame, hafter, hdepth⟩ := legible_of_mapFields? hfields hvalues
      exact ⟨.object (hsame ▸ hkeys) hafter, congrArg (· + 1) hdepth⟩

theorem legible_of_mapItems? : ∀ {items after : List Document},
    mapItems? f items = some after → (∀ item ∈ items, item.Legible p) →
      (∀ item ∈ after, item.Legible p) ∧ depthOfItems after = depthOfItems items
  | [], _, h, hlegible => by
      obtain rfl := Option.some.inj h
      exact ⟨hlegible, rfl⟩
  | item :: items, _, h, hlegible => by
      obtain ⟨hitem, hitems⟩ := List.forall_mem_cons.mp hlegible
      obtain ⟨item', hitem', h⟩ := Option.bind_eq_some_iff.mp h
      obtain ⟨items', hitems', h⟩ := Option.bind_eq_some_iff.mp h
      obtain rfl := Option.some.inj h
      obtain ⟨hfirst, hdepth⟩ := legible_of_mapStrings? hitem' hitem
      obtain ⟨hothers, hdepths⟩ := legible_of_mapItems? hitems' hitems
      exact ⟨List.forall_mem_cons.mpr ⟨hfirst, hothers⟩, by rw [depthOfItems, hdepth, hdepths]; rfl⟩

theorem legible_of_mapFields? : ∀ {fields after : Fields},
    mapFields? f fields = some after → (∀ entry ∈ fields, entry.2.Legible p) →
      after.keys = fields.keys ∧ (∀ entry ∈ after, entry.2.Legible p) ∧
        depthOfFields after = depthOfFields fields
  | [], _, h, hlegible => by
      obtain rfl := Option.some.inj h
      exact ⟨rfl, hlegible, rfl⟩
  | (key, value) :: fields, _, h, hlegible => by
      obtain ⟨hvalue, hfields⟩ := List.forall_mem_cons.mp hlegible
      obtain ⟨value', hvalue', h⟩ := Option.bind_eq_some_iff.mp h
      obtain ⟨fields', hfields', h⟩ := Option.bind_eq_some_iff.mp h
      obtain rfl := Option.some.inj h
      obtain ⟨hfirst, hdepth⟩ := legible_of_mapStrings? hvalue' hvalue
      obtain ⟨hkeys, hothers, hdepths⟩ := legible_of_mapFields? hfields' hfields
      exact ⟨congrArg (key :: ·) hkeys, List.forall_mem_cons.mpr ⟨hfirst, hothers⟩,
        by rw [depthOfFields, hdepth, hdepths]; rfl⟩

end

end AggQuery.Document
