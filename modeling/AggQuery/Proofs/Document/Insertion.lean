import AggQuery.Document.Path

/-!
# Writing below a key path

A value written at a long path is a value written at the end of the path, inside the object
that its beginning leads to. `Fields.modifyAt` changes the object at a key path, so a
sequence of writes below one path is a single change of the object that stands there
(`insertAll_behind`).

## Implementation notes

`modifyAt` creates the objects that are missing on the way even where `change` does
nothing, so the laws speak of changes and never of the object that was there before.
-/

namespace AggQuery

namespace Fields

/-- Change the object at a key path; an object is made where there is none. -/
def modifyAt (fields : Fields) (path : List String) (change : Fields → Fields) : Fields :=
  match path with
  | [] => change fields
  | key :: rest => set fields key (.object (modifyAt (below fields key) rest change))

@[simp] theorem modifyAt_nil (fields : Fields) (change : Fields → Fields) :
    modifyAt fields [] change = change fields := rfl

theorem modifyAt_cons (fields : Fields) (key : String) (rest : List String)
    (change : Fields → Fields) :
    modifyAt fields (key :: rest) change =
      set fields key (.object (modifyAt (below fields key) rest change)) := rfl

/-- Two changes at one path are one change. -/
theorem modifyAt_modifyAt (fields : Fields) (path : List String) (f g : Fields → Fields) :
    (modifyAt fields path f).modifyAt path g = modifyAt fields path fun inner => g (f inner) := by
  induction path generalizing fields with
  | nil => rfl
  | cons key rest ih =>
      simp only [modifyAt_cons, below_set_self, Document.fields_object, set_set, ih]

/-- A write behind a path is a change at the path. -/
theorem insertAt_append (fields : Fields) (front : List String) {path : List String}
    (h : path ≠ []) (value : Document) :
    insertAt fields (front ++ path) value =
      modifyAt fields front fun inner => insertAt inner path value := by
  induction front generalizing fields with
  | nil => rfl
  | cons key rest ih =>
      have hrest : rest ++ path ≠ [] := by simp [h]
      rw [List.cons_append, insertAt_cons fields key hrest, ih, modifyAt_cons]

/-- A change at a key that no field has appends the changed object. -/
theorem modifyAt_of_notMem {fields : Fields} {key : String} (change : Fields → Fields)
    (h : key ∉ keys fields) :
    modifyAt fields [key] change = fields ++ [(key, .object (change []))] := by
  rw [modifyAt_cons, below_of_notMem h, set_of_notMem _ h, modifyAt_nil]

/-- Write values at key paths, one after the other. -/
def insertAll (fields : Fields) (writes : List (List String × Document)) : Fields :=
  match writes with
  | [] => fields
  | (path, value) :: rest => insertAll (insertAt fields path value) rest

theorem insertAll_cons (fields : Fields) (path : List String) (value : Document)
    (rest : List (List String × Document)) :
    insertAll fields ((path, value) :: rest) = insertAll (insertAt fields path value) rest := rfl

/-- The same writes, each of them behind a key path. -/
def behind (front : List String) (writes : List (List String × Document)) :
    List (List String × Document) :=
  writes.map fun write => (front ++ write.1, write.2)

/-- Writes behind one path are a single change of the object at the path. -/
theorem insertAll_behind (fields : Fields) (front : List String)
    {writes : List (List String × Document)} (hne : writes ≠ [])
    (hpaths : ∀ write ∈ writes, write.1 ≠ []) :
    insertAll fields (behind front writes) =
      modifyAt fields front fun inner => insertAll inner writes := by
  induction writes generalizing fields with
  | nil => exact absurd rfl hne
  | cons write rest ih =>
      obtain ⟨path, value⟩ := write
      have hpath : path ≠ [] := hpaths (path, value) List.mem_cons_self
      have hfirst := insertAt_append fields front hpath value
      cases rest with
      | nil => exact hfirst
      | cons next more =>
          have hrest := ih (insertAt fields (front ++ path) value) (by simp)
            fun write hwrite => hpaths write (List.mem_cons_of_mem _ hwrite)
          rw [hfirst, modifyAt_modifyAt] at hrest
          rw [hfirst.symm] at hrest
          exact hrest

end Fields

end AggQuery
