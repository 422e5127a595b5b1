import AggQuery.Number.Binary64

/-!
# Documents

A document is a tree of nulls, truth values, numbers, strings, arrays and objects. An
object keeps its fields in the order in which their keys first appeared: `Fields.set`
replaces the value of a key in place and appends a key that was missing.

## Implementation notes

Objects are association lists, so that order is part of equality. `Document.KeysUnique`
says that no object of a tree has a key twice; `Fields.set` keeps it.
-/

namespace AggQuery

/-- A number of a document: an integer or a floating-point number. -/
inductive Number where
  | integer (n : Int)
  | float (x : Binary64)
deriving DecidableEq, Inhabited, Repr

/-- A tree of values with ordered objects. -/
inductive Document where
  | null
  | boolean (b : Bool)
  | number (n : Number)
  | string (s : String)
  | array (items : List Document)
  | object (fields : List (String × Document))
deriving Inhabited, Repr

/-- The fields of an object, in order. -/
abbrev Fields := List (String × Document)

namespace Document

def ofInt (n : Int) : Document := .number (.integer n)

def ofFloat (x : Binary64) : Document := .number (.float x)

def isObject : Document → Bool
  | .object _ => true
  | _ => false

/-- The fields of an object; any other value has none. -/
def fields : Document → Fields
  | .object fs => fs
  | _ => []

@[simp] theorem fields_object (fs : Fields) : (object fs).fields = fs := rfl

mutual

/-- Equality of documents is decidable, key order included. -/
def decEq : (a b : Document) → Decidable (a = b)
  | .null, .null => isTrue rfl
  | .boolean a, .boolean b =>
    if h : a = b then isTrue (by rw [h]) else isFalse (by simpa using h)
  | .number a, .number b =>
    if h : a = b then isTrue (by rw [h]) else isFalse (by simpa using h)
  | .string a, .string b =>
    if h : a = b then isTrue (by rw [h]) else isFalse (by simpa using h)
  | .array xs, .array ys =>
    match decEqItems xs ys with
    | isTrue h => isTrue (by rw [h])
    | isFalse h => isFalse (by simpa using h)
  | .object xs, .object ys =>
    match decEqFields xs ys with
    | isTrue h => isTrue (by rw [h])
    | isFalse h => isFalse (by simpa using h)
  | .null, .boolean _ | .null, .number _ | .null, .string _ | .null, .array _
  | .null, .object _ | .boolean _, .null | .boolean _, .number _ | .boolean _, .string _
  | .boolean _, .array _ | .boolean _, .object _ | .number _, .null | .number _, .boolean _
  | .number _, .string _ | .number _, .array _ | .number _, .object _ | .string _, .null
  | .string _, .boolean _ | .string _, .number _ | .string _, .array _ | .string _, .object _
  | .array _, .null | .array _, .boolean _ | .array _, .number _ | .array _, .string _
  | .array _, .object _ | .object _, .null | .object _, .boolean _ | .object _, .number _
  | .object _, .string _ | .object _, .array _ => isFalse (by simp)

/-- Equality of arrays is decidable. -/
def decEqItems : (a b : List Document) → Decidable (a = b)
  | [], [] => isTrue rfl
  | [], _ :: _ => isFalse (by simp)
  | _ :: _, [] => isFalse (by simp)
  | x :: xs, y :: ys =>
    match decEq x y, decEqItems xs ys with
    | isTrue h, isTrue h' => isTrue (by rw [h, h'])
    | isFalse h, _ => isFalse (by simp [h])
    | _, isFalse h => isFalse (by simp [h])

/-- Equality of field lists is decidable. -/
def decEqFields : (a b : List (String × Document)) → Decidable (a = b)
  | [], [] => isTrue rfl
  | [], _ :: _ => isFalse (by simp)
  | _ :: _, [] => isFalse (by simp)
  | (k, x) :: xs, (l, y) :: ys =>
    if hk : k = l then
      match decEq x y, decEqFields xs ys with
      | isTrue h, isTrue h' => isTrue (by rw [hk, h, h'])
      | isFalse h, _ => isFalse (by simp [h])
      | _, isFalse h => isFalse (by simp [h])
    else isFalse (by simp [hk])

end

instance : DecidableEq Document := decEq

mutual

/-- The nesting depth: a scalar has none, and an object or array one level more than its
deepest child. -/
def depth : Document → Nat
  | .array items => depthOfItems items + 1
  | .object fields => depthOfFields fields + 1
  | _ => 0

/-- The greatest depth among the items of an array. -/
def depthOfItems : List Document → Nat
  | [] => 0
  | item :: rest => max item.depth (depthOfItems rest)

/-- The greatest depth among the values of an object. -/
def depthOfFields : List (String × Document) → Nat
  | [] => 0
  | (_, value) :: rest => max value.depth (depthOfFields rest)

end

end Document

namespace Fields

/-- The value of a key. -/
def get? (fields : Fields) (key : String) : Option Document :=
  match fields with
  | [] => none
  | (k, value) :: rest => if k = key then some value else get? rest key

/-- Give a key a value: in place where the key is present, at the end otherwise. -/
def set (fields : Fields) (key : String) (value : Document) : Fields :=
  match fields with
  | [] => [(key, value)]
  | (k, old) :: rest => if k = key then (k, value) :: rest else (k, old) :: set rest key value

/-- The keys in order. -/
def keys (fields : Fields) : List String := fields.map Prod.fst

@[simp] theorem get?_nil (key : String) : get? [] key = none := rfl

@[simp] theorem get?_set_self (fields : Fields) (key : String) (value : Document) :
    (set fields key value).get? key = some value := by
  induction fields with
  | nil => simp [set, get?]
  | cons entry rest ih =>
      obtain ⟨k, old⟩ := entry
      by_cases h : k = key <;> simp [set, get?, h, ih]

theorem get?_set_of_ne (fields : Fields) {key other : String} (value : Document)
    (h : other ≠ key) : (set fields key value).get? other = fields.get? other := by
  induction fields with
  | nil => simp [set, get?, h.symm]
  | cons entry rest ih =>
      obtain ⟨k, old⟩ := entry
      by_cases hk : k = key
      · subst hk
        simp [set, get?, h.symm]
      · by_cases ho : k = other
        · simp only [set, if_neg hk, get?, if_pos ho]
        · simp only [set, if_neg hk, get?, if_neg ho, ih]

theorem mem_keys_iff (fields : Fields) (key : String) :
    key ∈ fields.keys ↔ (fields.get? key).isSome = true := by
  induction fields with
  | nil => simp [keys, get?]
  | cons entry rest ih =>
      obtain ⟨k, value⟩ := entry
      by_cases h : k = key
      · simp [keys, get?, h]
      · have : key ≠ k := fun e => h e.symm
        simpa [keys, get?, h, this] using ih

/-- A key that is present keeps its place, and a missing one comes last. -/
theorem keys_set (fields : Fields) (key : String) (value : Document) :
    (set fields key value).keys =
      if key ∈ fields.keys then fields.keys else fields.keys ++ [key] := by
  induction fields with
  | nil => simp [set, keys]
  | cons entry rest ih =>
      obtain ⟨k, old⟩ := entry
      by_cases h : k = key
      · simp [set, keys, h]
      · have hne : key ≠ k := fun e => h e.symm
        simp only [keys] at ih
        by_cases hm : key ∈ rest.map Prod.fst <;> simp [set, keys, h, hne, hm, ih]

@[simp] theorem set_set (fields : Fields) (key : String) (old value : Document) :
    (set fields key old).set key value = set fields key value := by
  induction fields with
  | nil => simp [set]
  | cons entry rest ih =>
      obtain ⟨k, before⟩ := entry
      by_cases h : k = key <;> simp [set, h, ih]

@[simp] theorem keys_cons (key : String) (value : Document) (rest : Fields) :
    keys ((key, value) :: rest) = key :: keys rest := rfl

@[simp] theorem keys_nil : keys [] = [] := rfl

@[simp] theorem keys_append (fields more : Fields) :
    keys (fields ++ more) = fields.keys ++ more.keys := by
  simp [keys]

/-- A key that stands in no field before `more` is set in `more`. -/
theorem set_append_of_notMem {fields : Fields} (more : Fields) {key : String}
    (value : Document) (h : key ∉ fields.keys) :
    set (fields ++ more) key value = fields ++ set more key value := by
  induction fields with
  | nil => rfl
  | cons entry rest ih =>
      obtain ⟨k, old⟩ := entry
      simp only [keys, List.map_cons, List.mem_cons, not_or] at h
      have hk : k ≠ key := fun e => h.1 e.symm
      simp only [List.cons_append, set, if_neg hk, ih h.2]

theorem set_of_notMem {fields : Fields} {key : String} (value : Document)
    (h : key ∉ fields.keys) : set fields key value = fields ++ [(key, value)] := by
  simpa [set] using set_append_of_notMem [] value h

/-- A key that stands in no field before `more` is looked up in `more`. -/
theorem get?_append_of_notMem {fields : Fields} (more : Fields) {key : String}
    (h : key ∉ fields.keys) : get? (fields ++ more) key = get? more key := by
  induction fields with
  | nil => rfl
  | cons entry rest ih =>
      obtain ⟨k, old⟩ := entry
      simp only [keys, List.map_cons, List.mem_cons, not_or] at h
      have hk : k ≠ key := fun e => h.1 e.symm
      simp only [List.cons_append, get?, if_neg hk, ih h.2]

end Fields

namespace Document

mutual

/-- No object of the tree has a key twice. -/
def KeysUnique : Document → Prop
  | .array items => ItemsUnique items
  | .object fields => (fields.map Prod.fst).Nodup ∧ ValuesUnique fields
  | _ => True

/-- No object below the items of an array has a key twice. -/
def ItemsUnique : List Document → Prop
  | [] => True
  | item :: rest => item.KeysUnique ∧ ItemsUnique rest

/-- No object below the values of an object has a key twice. -/
def ValuesUnique : List (String × Document) → Prop
  | [] => True
  | (_, value) :: rest => value.KeysUnique ∧ ValuesUnique rest

end

end Document

end AggQuery
