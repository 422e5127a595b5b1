import AggQuery.Proofs.Document.Insertion
import AggQuery.Proofs.Document.Legible

/-!
# What a write at a key path leaves

A write at a key path is read back at the path. It changes nothing at a path that parts from
its own, it keeps the order of the keys in every object on its way, and an object that it has
to make there holds a single key (`Fields.written_insertAt`).

## Implementation notes

All of this follows from one equation, `at?_insertAt_append`: at the beginning of the path
stands the object of before, with the rest of the path written into it. `Fields.reached` is
that object, without fields where there was none.
-/

namespace AggQuery

namespace Document

mutual

theorem legible_of_keysUnique :
    (document : Document) → document.KeysUnique → document.Legible fun _ => True
  | .null, _ => .null
  | .boolean b, _ => .boolean b
  | .number _, _ => .number trivial
  | .string s, _ => .string s
  | .array items, h => .array (legible_of_itemsUnique items h)
  | .object fields, h => .object h.1 (legible_of_valuesUnique fields h.2)

theorem legible_of_itemsUnique :
    (items : List Document) → ItemsUnique items → ∀ item ∈ items, item.Legible fun _ => True
  | [], _ => by simp
  | first :: rest, h =>
    List.forall_mem_cons.mpr
      ⟨legible_of_keysUnique first h.1, legible_of_itemsUnique rest h.2⟩

theorem legible_of_valuesUnique :
    (fields : Fields) → ValuesUnique fields → ∀ entry ∈ fields, entry.2.Legible fun _ => True
  | [], _ => by simp
  | (_, value) :: rest, h =>
    List.forall_mem_cons.mpr
      ⟨legible_of_keysUnique value h.1, legible_of_valuesUnique rest h.2⟩

end

theorem itemsUnique_of_forall {items : List Document} (h : ∀ item ∈ items, item.KeysUnique) :
    ItemsUnique items := by
  induction items with
  | nil => trivial
  | cons first rest ih =>
      obtain ⟨hfirst, hrest⟩ := List.forall_mem_cons.mp h
      exact ⟨hfirst, ih hrest⟩

theorem valuesUnique_of_forall {fields : Fields} (h : ∀ entry ∈ fields, entry.2.KeysUnique) :
    ValuesUnique fields := by
  induction fields with
  | nil => trivial
  | cons first rest ih =>
      obtain ⟨hfirst, hrest⟩ := List.forall_mem_cons.mp h
      exact ⟨hfirst, ih hrest⟩

/-- Unique keys are what is left of legibility when the numbers may be any. -/
theorem keysUnique_iff_legible (document : Document) :
    document.KeysUnique ↔ document.Legible fun _ => True := by
  refine ⟨legible_of_keysUnique document, fun h => ?_⟩
  induction h with
  | array _ ih => exact itemsUnique_of_forall ih
  | object hkeys _ ih => exact ⟨hkeys, valuesUnique_of_forall ih⟩
  | _ => trivial

end Document

/-- Neither of two key paths is a beginning of the other. -/
def Parted (path other : List String) : Prop := ¬path <+: other ∧ ¬other <+: path

namespace Parted

variable {path other : List String}

theorem symm (h : Parted path other) : Parted other path := ⟨h.2, h.1⟩

theorem append_left_iff (front : List String) :
    Parted (front ++ path) (front ++ other) ↔ Parted path other := by
  simp only [Parted, List.prefix_append_right_inj]

theorem cons_iff (key : String) : Parted (key :: path) (key :: other) ↔ Parted path other :=
  append_left_iff [key]

/-- Paths that have parted do not meet again. -/
theorem extend (h : Parted path other) {longer : List String} (hfront : other <+: longer) :
    Parted path longer := by
  constructor
  · intro hpath
    rcases List.prefix_or_prefix_of_prefix hpath hfront with hle | hge
    · exact h.1 hle
    · exact h.2 hge
  · exact fun hlonger => h.2 (hfront.trans hlonger)

/-- Paths of one length part unless they are the same. -/
theorem of_length_eq (hlength : path.length = other.length) (hne : path ≠ other) :
    Parted path other :=
  ⟨fun h => hne (h.eq_of_length hlength), fun h => hne (h.eq_of_length hlength.symm).symm⟩

end Parted

namespace Fields

open Document (at?_object_cons)

/-- The fields of the object at a key path; none if there is no object. -/
def reached (fields : Fields) (path : List String) : Fields :=
  match path with
  | [] => fields
  | key :: rest => reached (below fields key) rest

@[simp] theorem reached_nil (fields : Fields) : reached fields [] = fields := rfl

theorem reached_cons (fields : Fields) (key : String) (rest : List String) :
    reached fields (key :: rest) = reached (below fields key) rest := rfl

@[simp] theorem below_nil (key : String) : below [] key = [] := rfl

theorem reached_empty (path : List String) : reached [] path = [] := by
  induction path with
  | nil => rfl
  | cons key rest ih => rw [reached_cons, below_nil, ih]

theorem reached_eq_elim (fields : Fields) (path : List String) :
    reached fields path = ((Document.object fields).at? path).elim [] Document.fields := by
  induction path generalizing fields with
  | nil => simp
  | cons key rest ih =>
      rw [reached_cons, at?_object_cons, below]
      cases fields.get? key with
      | none => exact reached_empty rest
      | some value =>
          cases value with
          | object inner => exact ih inner
          | _ => cases rest <;> simp [Document.fields, Document.at?, reached_empty]

theorem reached_of_at? {fields inner : Fields} {path : List String}
    (h : (Document.object fields).at? path = some (.object inner)) :
    reached fields path = inner := by
  rw [reached_eq_elim, h]
  rfl

/-- Where no object is reached, no fields are. -/
theorem reached_of_no_object {fields : Fields} {path : List String}
    (h : ∀ inner, (Document.object fields).at? path ≠ some (.object inner)) :
    reached fields path = [] := by
  rw [reached_eq_elim]
  cases hat : (Document.object fields).at? path with
  | none => rfl
  | some value =>
      cases value with
      | object inner => exact absurd hat (h inner)
      | _ => rfl

/-- At the beginning of the path of a write stands the object of before, with the rest of the
path written into it. -/
theorem at?_insertAt_append (fields : Fields) (front : List String) {rest : List String}
    (h : rest ≠ []) (value : Document) :
    (Document.object (fields.insertAt (front ++ rest) value)).at? front =
      some (.object ((fields.reached front).insertAt rest value)) := by
  induction front generalizing fields with
  | nil => simp
  | cons key front ih =>
      have htail : front ++ rest ≠ [] := by simp [h]
      rw [List.cons_append, insertAt_cons fields key htail, at?_object_cons, get?_set_self,
        Option.bind_some, ih, reached_cons]

/-- A write changes one field of the object that it starts from. -/
theorem insertAt_cons_eq_set (fields : Fields) (key : String) (rest : List String)
    (value : Document) :
    ∃ written, fields.insertAt (key :: rest) value = fields.set key written := by
  cases rest with
  | nil => exact ⟨value, rfl⟩
  | cons next more => exact ⟨_, insertAt_cons fields key (by simp) value⟩

/-- The value that is written is read back. -/
theorem at?_insertAt_self (fields : Fields) {path : List String} (h : path ≠ [])
    (value : Document) :
    (Document.object (fields.insertAt path value)).at? path = some value := by
  induction path generalizing fields with
  | nil => exact absurd rfl h
  | cons key rest ih =>
      cases rest with
      | nil => simp [at?_object_cons]
      | cons next more =>
          rw [insertAt_cons fields key (by simp), at?_object_cons, get?_set_self,
            Option.bind_some, ih _ (by simp)]

/-- Nothing changes at a path that parts from the path of the write. -/
theorem at?_insertAt_of_parted (fields : Fields) {path other : List String}
    (h : Parted path other) (value : Document) :
    (Document.object (fields.insertAt path value)).at? other =
      (Document.object fields).at? other := by
  induction path generalizing fields other with
  | nil => exact absurd List.nil_prefix h.1
  | cons key rest ih =>
      cases other with
      | nil => exact absurd List.nil_prefix h.2
      | cons first more =>
          by_cases hkey : first = key
          · subst hkey
            have hparted : Parted rest more := (Parted.cons_iff first).mp h
            have hrest : rest ≠ [] := by
              rintro rfl
              exact hparted.1 List.nil_prefix
            have hmore : more ≠ [] := by
              rintro rfl
              exact hparted.2 List.nil_prefix
            rw [insertAt_cons fields first hrest, at?_object_cons, at?_object_cons,
              get?_set_self, Option.bind_some, ih _ hparted, below]
            obtain ⟨next, tail, rfl⟩ := List.exists_cons_of_ne_nil hmore
            -- Nothing could be read through a value that the write has replaced.
            cases fields.get? first with
            | none => rfl
            | some value => cases value <;> simp [Document.fields, Document.at?]
          · obtain ⟨written, hwritten⟩ := insertAt_cons_eq_set fields key rest value
            rw [hwritten, at?_object_cons, at?_object_cons, get?_set_of_ne fields written hkey]

theorem keys_insertAt (fields : Fields) (key : String) (rest : List String) (value : Document) :
    (fields.insertAt (key :: rest) value).keys =
      if key ∈ fields.keys then fields.keys else fields.keys ++ [key] := by
  obtain ⟨written, hwritten⟩ := insertAt_cons_eq_set fields key rest value
  rw [hwritten, keys_set]

/-- What a write of a value at a key path leaves of the fields before it. -/
structure Written (before : Fields) (path : List String) (value : Document) (after : Fields) :
    Prop where
  /-- The value is read back. -/
  readBack : (Document.object after).at? path = some value
  /-- Nothing changes at a path that is neither a beginning nor a continuation. -/
  elsewhere : ∀ other, Parted path other →
    (Document.object after).at? other = (Document.object before).at? other
  /-- The way to the value leads through objects. -/
  through : ∀ front, front <+: path → front ≠ path →
    ∃ fields, (Document.object after).at? front = some (.object fields)
  /-- An object on the way keeps its keys in order; the next key of the path comes last where
  it was missing. -/
  keysKept : ∀ front key (inner : Fields), front ++ [key] <+: path →
    (Document.object before).at? front = some (.object inner) →
    ∃ changed : Fields, (Document.object after).at? front = some (.object changed) ∧
      changed.keys = if key ∈ inner.keys then inner.keys else inner.keys ++ [key]
  /-- An object that was made on the way holds the next key of the path and no other. -/
  made : ∀ front key, front ++ [key] <+: path →
    (∀ fields, (Document.object before).at? front ≠ some (.object fields)) →
    ∃ next, (Document.object after).at? front = some (.object [(key, next)])

theorem written_of_ne_nil (fields : Fields) {path : List String} (h : path ≠ [])
    (value : Document) : Written fields path value (fields.insertAt path value) where
  readBack := at?_insertAt_self fields h value
  elsewhere _ hparted := at?_insertAt_of_parted fields hparted value
  through front hfront hne := by
    obtain ⟨rest, rfl⟩ := hfront
    have hrest : rest ≠ [] := by simpa using hne
    exact ⟨_, at?_insertAt_append fields front hrest value⟩
  keysKept front key inner hfront hat := by
    obtain ⟨rest, rfl⟩ := hfront
    rw [List.append_assoc, List.singleton_append]
    refine ⟨_, at?_insertAt_append fields front (by simp) value, ?_⟩
    rw [reached_of_at? hat, keys_insertAt]
  made front key hfront hnone := by
    obtain ⟨rest, rfl⟩ := hfront
    obtain ⟨written, hwritten⟩ := insertAt_cons_eq_set [] key rest value
    refine ⟨written, ?_⟩
    rw [List.append_assoc, List.singleton_append,
      at?_insertAt_append fields front (by simp) value, reached_of_no_object hnone, hwritten]
    rfl

theorem keysUnique_insertAt {fields : Fields} (hfields : (Document.object fields).KeysUnique)
    (path : List String) {value : Document} (hvalue : value.KeysUnique) :
    (Document.object (fields.insertAt path value)).KeysUnique := by
  rw [Document.keysUnique_iff_legible] at hfields hvalue ⊢
  have hlegible : Legible (fun _ => True) fields := .of_document hfields
  exact (hlegible.insertAt path hvalue).object

/-- Writing a value at a key path of an object: the value is read back, every unrelated path
is as before, the way leads through objects with their keys in order, and no object gets a key
twice. Without a path nothing is written. -/
theorem written_insertAt {fields : Fields} (hfields : (Document.object fields).KeysUnique)
    {value : Document} (hvalue : value.KeysUnique) (path : List String) :
    (path ≠ [] → Written fields path value (fields.insertAt path value)) ∧
      (Document.object (fields.insertAt path value)).KeysUnique ∧
      fields.insertAt [] value = fields :=
  ⟨fun h => written_of_ne_nil fields h value, keysUnique_insertAt hfields path hvalue, rfl⟩

/-- An object whose value at the key `a` is a string. -/
def textAtKey : Fields := [("a", .string "text"), ("b", .object [("c", .null)])]

theorem written_textAtKey :
    (Document.object textAtKey).KeysUnique ∧ (Document.boolean true).KeysUnique ∧
      ["a", "d"] ≠ [] ∧ Written textAtKey ["a", "d"] (.boolean true)
        [("a", .object [("d", .boolean true)]), ("b", .object [("c", .null)])] := by
  have hkeys : (Document.object textAtKey).KeysUnique := by
    simp [Document.KeysUnique, Document.ValuesUnique, textAtKey]
  have hvalue : (Document.boolean true).KeysUnique := trivial
  exact ⟨hkeys, hvalue, by simp, (written_insertAt hkeys hvalue ["a", "d"]).1 (by simp)⟩

end Fields

end AggQuery
