import AggQuery.Proofs.Document.Insertion

/-!
# Documents with unique keys

`Document.Legible p` says that no object of a document has a key twice and that every
number of it has the property `p`. Writing at a key path keeps both, so a document that is
built by such writes is legible as soon as the written values are.
-/

namespace AggQuery

/-- A number that one 64-bit word holds: an integer, with or without a sign, or a finite
floating-point number. -/
def Number.Fits : Number → Prop
  | .integer n => -(1 <<< 63) ≤ n ∧ n < UInt64.size
  | .float x => x.isFinite = true

/-- No object of the tree has a key twice, and every number has the property `p`. -/
inductive Document.Legible (p : Number → Prop) : Document → Prop
  | null : Legible p .null
  | boolean (b : Bool) : Legible p (.boolean b)
  | number {n : Number} (h : p n) : Legible p (.number n)
  | string (s : String) : Legible p (.string s)
  | array {items : List Document} (h : ∀ item ∈ items, Legible p item) :
      Legible p (.array items)
  | object {fields : Fields} (hkeys : fields.keys.Nodup)
      (h : ∀ entry ∈ fields, Legible p entry.2) : Legible p (.object fields)

namespace Document

variable {p : Number → Prop}

@[simp]
theorem legible_null : null.Legible p := .null

@[simp]
theorem legible_string (s : String) : (string s).Legible p := .string s

@[simp]
theorem legible_boolean (b : Bool) : (boolean b).Legible p := .boolean b

@[simp]
theorem legible_number (n : Number) : (number n).Legible p ↔ p n := by
  constructor
  · intro h
    cases h with
    | number h => exact h
  · exact .number

@[simp]
theorem legible_array (items : List Document) :
    (array items).Legible p ↔ ∀ item ∈ items, item.Legible p := by
  constructor
  · intro h
    cases h with
    | array h => exact h
  · exact .array

@[simp]
theorem legible_object (fields : Fields) :
    (object fields).Legible p ↔ fields.keys.Nodup ∧ ∀ entry ∈ fields, entry.2.Legible p := by
  constructor
  · intro h
    cases h with
    | object hkeys h => exact ⟨hkeys, h⟩
  · rintro ⟨hkeys, h⟩
    exact .object hkeys h

theorem Legible.of_mem {fields : Fields} (h : (Document.object fields).Legible p) {name : String}
    {value : Document} (hmem : (name, value) ∈ fields) : value.Legible p :=
  ((legible_object fields).mp h).2 (name, value) hmem

theorem Legible.of_mem_items {items : List Document} (h : (Document.array items).Legible p) :
    ∀ item ∈ items, item.Legible p :=
  (legible_array items).mp h

end Document

namespace Fields

variable {p : Number → Prop}

/-- The fields have different keys and legible values. -/
def Legible (p : Number → Prop) (fields : Fields) : Prop :=
  fields.keys.Nodup ∧ ∀ entry ∈ fields, entry.2.Legible p

theorem legible_nil : Legible p [] := ⟨List.nodup_nil, by simp⟩

theorem legible_singleton (key : String) {value : Document} (h : value.Legible p) :
    Legible p [(key, value)] := by
  refine ⟨by simp, ?_⟩
  intro entry hentry
  obtain rfl := List.mem_singleton.mp hentry
  exact h

theorem Legible.object {fields : Fields} (h : Legible p fields) :
    (Document.object fields).Legible p :=
  .object h.1 h.2

theorem Legible.of_document {document : Document} (h : document.Legible p) :
    Legible p document.fields := by
  cases h with
  | object hkeys h => exact ⟨hkeys, h⟩
  | _ => exact legible_nil

theorem Legible.get? {fields : Fields} (h : Legible p fields) {key : String}
    {value : Document} (hget : fields.get? key = some value) : value.Legible p := by
  have hvalues := h.2
  clear h
  induction fields with
  | nil => cases hget
  | cons entry rest ih =>
      obtain ⟨k, first⟩ := entry
      obtain ⟨hfirst, hrest⟩ := List.forall_mem_cons.mp hvalues
      rw [Fields.get?] at hget
      split at hget
      · obtain rfl := Option.some.inj hget
        exact hfirst
      · exact ih hget hrest

theorem Legible.below {fields : Fields} (h : Legible p fields) (key : String) :
    Legible p (fields.below key) := by
  unfold Fields.below
  cases hget : fields.get? key with
  | none => exact legible_nil
  | some value => exact .of_document (h.get? hget)

theorem mem_set {fields : Fields} {key : String} {value : Document}
    {entry : String × Document} (h : entry ∈ set fields key value) :
    entry ∈ fields ∨ entry = (key, value) := by
  induction fields with
  | nil => exact Or.inr (List.mem_singleton.mp h)
  | cons first rest ih =>
      obtain ⟨k, old⟩ := first
      rw [set] at h
      split at h
      · next hk =>
          rcases List.mem_cons.mp h with rfl | hrest
          · exact Or.inr (by rw [hk])
          · exact Or.inl (List.mem_cons_of_mem _ hrest)
      · rcases List.mem_cons.mp h with rfl | hrest
        · exact Or.inl List.mem_cons_self
        · rcases ih hrest with hold | hnew
          · exact Or.inl (List.mem_cons_of_mem _ hold)
          · exact Or.inr hnew

theorem Legible.set {fields : Fields} (h : Legible p fields) (key : String)
    {value : Document} (hvalue : value.Legible p) : Legible p (fields.set key value) := by
  obtain ⟨hkeys, hvalues⟩ := h
  constructor
  · rw [keys_set]
    split
    · exact hkeys
    · next hnew =>
        refine List.nodup_append.mpr ⟨hkeys, by simp, ?_⟩
        intro other hother last hlast heq
        obtain rfl := List.mem_singleton.mp hlast
        exact hnew (heq ▸ hother)
  · intro entry hentry
    rcases mem_set hentry with hold | rfl
    · exact hvalues entry hold
    · exact hvalue

theorem Legible.insertAt {fields : Fields} (h : Legible p fields) (path : List String)
    {value : Document} (hvalue : value.Legible p) : Legible p (fields.insertAt path value) := by
  induction path generalizing fields with
  | nil => exact h
  | cons key rest ih =>
      cases rest with
      | nil => exact h.set key hvalue
      | cons next more =>
          rw [insertAt_cons fields key (by simp)]
          exact h.set key (ih (h.below key)).object

theorem Legible.insertAll {fields : Fields} (h : Legible p fields)
    {writes : List (List String × Document)} (hwrites : ∀ write ∈ writes, write.2.Legible p) :
    Legible p (fields.insertAll writes) := by
  induction writes generalizing fields with
  | nil => exact h
  | cons write rest ih =>
      obtain ⟨hwrite, hrest⟩ := List.forall_mem_cons.mp hwrites
      exact ih (h.insertAt write.1 hwrite) hrest

end Fields

end AggQuery
