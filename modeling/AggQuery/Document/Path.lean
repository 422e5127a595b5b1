import AggQuery.Document.Basic

/-!
# Writing and reading at a key path

`Fields.insertAt` writes a value at a path of keys. It creates the objects that are
missing on the way and replaces a value that is no object by a new object. The empty path
writes nothing. `Document.at?` reads along a path, through objects only.
-/

namespace AggQuery

namespace Fields

/-- The fields of the object below a key; none if there is no object. -/
def below (fields : Fields) (key : String) : Fields :=
  match fields.get? key with
  | some value => value.fields
  | none => []

/-- Write a value at a key path. -/
def insertAt (fields : Fields) (path : List String) (value : Document) : Fields :=
  match path with
  | [] => fields
  | [key] => set fields key value
  | key :: next :: rest =>
    set fields key (.object (insertAt (below fields key) (next :: rest) value))

@[simp] theorem below_set_self (fields : Fields) (key : String) (value : Document) :
    below (set fields key value) key = value.fields := by
  simp [below]

theorem below_append_of_notMem {fields : Fields} (more : Fields) {key : String}
    (h : key ∉ keys fields) : below (fields ++ more) key = below more key := by
  simp only [below, get?_append_of_notMem more h]

theorem below_of_notMem {fields : Fields} {key : String} (h : key ∉ keys fields) :
    below fields key = [] := by
  have hnone := below_append_of_notMem [] h
  rw [List.append_nil] at hnone
  exact hnone

@[simp] theorem insertAt_nil (fields : Fields) (value : Document) :
    insertAt fields [] value = fields := rfl

@[simp] theorem insertAt_singleton (fields : Fields) (key : String) (value : Document) :
    insertAt fields [key] value = set fields key value := rfl

theorem insertAt_cons (fields : Fields) (key : String) {path : List String} (h : path ≠ [])
    (value : Document) :
    insertAt fields (key :: path) value =
      set fields key (.object (insertAt (below fields key) path value)) := by
  cases path with
  | nil => exact absurd rfl h
  | cons next rest => rfl

end Fields

namespace Document

/-- The value at a key path, followed through objects. -/
def at? (document : Document) (path : List String) : Option Document :=
  match path with
  | [] => some document
  | key :: rest =>
    match document with
    | .object fields =>
      match Fields.get? fields key with
      | some value => at? value rest
      | none => none
    | _ => none

@[simp] theorem at?_nil (document : Document) : document.at? [] = some document := by
  simp [at?]

theorem at?_object_cons (fields : Fields) (key : String) (rest : List String) :
    (object fields).at? (key :: rest) = (Fields.get? fields key).bind (·.at? rest) := by
  simp only [at?]
  cases Fields.get? fields key <;> rfl

end Document

end AggQuery
