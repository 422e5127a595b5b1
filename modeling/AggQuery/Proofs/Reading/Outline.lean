import AggQuery.Proofs.Reading.ObjectReader
import AggQuery.Proofs.Reading.Schema
import AggQuery.Reading.Text

/-!
# Outlines of query documents

The outline of a text shows where its arrays and objects stand and which keys the objects
give, in order. A key may be given twice. `Spells` tells which texts have an outline in front,
`Repeats` whether an object in the role of a query, a sort criterion or a payload gives one of
its fields twice, under one name or under two.

## Implementation notes

An outline is told from lexemes that are skipped, so it is there also for texts that no reader
takes. A key that cannot be read as a string has no name. `behind?` follows an outline through a
text and so decides whether the text has it.
-/

namespace AggQuery

/-- What stands in a text: scalars, arrays, and objects with all their keys in order. -/
inductive Outline where
  | scalar
  | array (items : List Outline)
  | object (fields : List (Option String × Outline))
deriving Inhabited, Repr

/-- The keys of an object and the outlines of their values. -/
abbrev OutlineFields := List (Option String × Outline)

/-- Whether a key is one of the names of a field. -/
def FieldSchema.Names (field : FieldSchema) (key : Option String) : Prop :=
  ∃ name ∈ field.names, key = some name

theorem FieldSchema.names_some {field : FieldSchema} {key : String} :
    field.Names (some key) ↔ key ∈ field.names := by
  simp [Names]

namespace Outline

/-- What holds of an outline if it holds of its parts holds of every outline. -/
@[elab_as_elim]
theorem inductionOn {motive : Outline → Prop} (outline : Outline) (scalar : motive .scalar)
    (array : ∀ items, (∀ item ∈ items, motive item) → motive (.array items))
    (object : ∀ fields : OutlineFields, (∀ entry ∈ fields, motive entry.2) →
      motive (.object fields)) : motive outline :=
  @Outline.rec motive (fun items => ∀ item ∈ items, motive item)
    (fun fields => ∀ entry ∈ fields, motive entry.2) (fun entry => motive entry.2)
    scalar array object
    nofun (fun _ _ hitem hitems => List.forall_mem_cons.mpr ⟨hitem, hitems⟩)
    nofun (fun _ _ hentry hfields => List.forall_mem_cons.mpr ⟨hentry, hfields⟩)
    (fun _ _ hvalue => hvalue) outline

open Lexeme TextReader

/-- The key whose text starts behind its opening quote. -/
def keyAt (text : List Char) : Option String :=
  match readString [] text with
  | .ok (key, _) => some key
  | .error _ => none

/-- A key and its colon stand at the start of a text. -/
def SpellsKey (key : Option String) (text rest : List Char) : Prop :=
  ∃ inside behind, skipBlanks text = '"' :: inside ∧ key = keyAt inside ∧
    skipString inside = .ok behind ∧ colon behind = .ok rest

/-- The next element of an array or object starts at `rest`, behind a comma unless it is the
first one. -/
def Continues (first : Bool) (text rest : List Char) : Prop :=
  if first then rest = text else skipBlanks text = ',' :: rest

mutual

/-- A text starts with a value of this outline, and `rest` is behind it. -/
def Spells : Outline → List Char → List Char → Prop
  | .scalar, text, rest => skipScalar (skipBlanks text) = .ok rest
  | .array items, text, rest =>
    ∃ inside, skipBlanks text = '[' :: inside ∧ SpellsItems items true inside rest
  | .object fields, text, rest =>
    ∃ inside, skipBlanks text = '\x7b' :: inside ∧ SpellsFields fields true inside rest

/-- A text starts with the remaining items of an array and its closing bracket. -/
def SpellsItems : List Outline → Bool → List Char → List Char → Prop
  | [], _, text, rest => skipBlanks text = ']' :: rest
  | item :: items, first, text, rest =>
    ∃ start behind, Continues first text start ∧ Spells item start behind ∧
      SpellsItems items false behind rest

/-- A text starts with the remaining fields of an object and its closing brace. -/
def SpellsFields : List (Option String × Outline) → Bool → List Char → List Char → Prop
  | [], _, text, rest => skipBlanks text = '\x7d' :: rest
  | (key, value) :: fields, first, text, rest =>
    ∃ start inside behind, Continues first text start ∧ SpellsKey key start inside ∧
      Spells value inside behind ∧ SpellsFields fields false behind rest

end

section Deciding

/-- What stands behind a character, where a text starts with it. -/
def behindChar? (c : Char) (text : List Char) : Option (List Char) :=
  match skipBlanks text with
  | [] => none
  | d :: rest => if d = c then some rest else none

/-- Where the next element of an array or object starts. -/
def start? (first : Bool) (text : List Char) : Option (List Char) :=
  if first then some text else behindChar? ',' text

/-- What stands behind a key and its colon. -/
def behindKey? (key : Option String) (text : List Char) : Option (List Char) := do
  let inside ← behindChar? '"' text
  let behind ← (skipString inside).toOption
  if key = keyAt inside then (colon behind).toOption else none

mutual

/-- What stands behind a value of this outline, where a text starts with one. -/
def behind? : Outline → List Char → Option (List Char)
  | .scalar, text => (skipScalar (skipBlanks text)).toOption
  | .array items, text => do behindItems? items true (← behindChar? '[' text)
  | .object fields, text => do behindFields? fields true (← behindChar? '\x7b' text)

/-- What stands behind the remaining items of an array. -/
def behindItems? : List Outline → Bool → List Char → Option (List Char)
  | [], _, text => behindChar? ']' text
  | item :: items, first, text => do
    behindItems? items false (← behind? item (← start? first text))

/-- What stands behind the remaining fields of an object. -/
def behindFields? : List (Option String × Outline) → Bool → List Char → Option (List Char)
  | [], _, text => behindChar? '\x7d' text
  | (key, value) :: fields, first, text => do
    behindFields? fields false (← behind? value (← behindKey? key (← start? first text)))

end

variable {first : Bool} {text rest : List Char}

theorem behindChar?_eq_some {c : Char} :
    behindChar? c text = some rest ↔ skipBlanks text = c :: rest := by
  unfold behindChar?
  split
  · next htext => simp [htext]
  · next htext => simp [htext]

theorem start?_eq_some : start? first text = some rest ↔ Continues first text rest := by
  cases first with
  | true => exact Option.some_inj.trans eq_comm
  | false => exact behindChar?_eq_some

theorem behindKey?_eq_some {key : Option String} :
    behindKey? key text = some rest ↔ SpellsKey key text rest := by
  simp only [behindKey?, SpellsKey, bind, Option.bind_eq_some_iff, behindChar?_eq_some,
    toOption_eq_some_iff, Option.ite_none_right_eq_some]
  constructor
  · rintro ⟨inside, htext, behind, hskip, hkey, hcolon⟩
    exact ⟨inside, behind, htext, hkey, hskip, hcolon⟩
  · rintro ⟨inside, behind, htext, hkey, hskip, hcolon⟩
    exact ⟨inside, htext, behind, hskip, hkey, hcolon⟩

mutual

theorem behind?_eq_some : ∀ {outline : Outline} {text rest : List Char},
    behind? outline text = some rest ↔ outline.Spells text rest
  | .scalar, _, _ => toOption_eq_some_iff
  | .array items, _, _ => by
      simp only [behind?, Spells, bind, Option.bind_eq_some_iff, behindChar?_eq_some,
        behindItems?_eq_some]
  | .object fields, _, _ => by
      simp only [behind?, Spells, bind, Option.bind_eq_some_iff, behindChar?_eq_some,
        behindFields?_eq_some]

theorem behindItems?_eq_some : ∀ {items : List Outline} {first : Bool} {text rest : List Char},
    behindItems? items first text = some rest ↔ SpellsItems items first text rest
  | [], _, _, _ => behindChar?_eq_some
  | item :: items, _, _, _ => by
      simp only [behindItems?, SpellsItems, bind, Option.bind_eq_some_iff, start?_eq_some,
        behind?_eq_some, behindItems?_eq_some, exists_and_left]

theorem behindFields?_eq_some : ∀ {fields : OutlineFields} {first : Bool}
    {text rest : List Char},
    behindFields? fields first text = some rest ↔ SpellsFields fields first text rest
  | [], _, _, _ => behindChar?_eq_some
  | (key, value) :: fields, _, _, _ => by
      simp only [behindFields?, SpellsFields, bind, Option.bind_eq_some_iff, start?_eq_some,
        behindKey?_eq_some, behind?_eq_some, behindFields?_eq_some, exists_and_left]

end

end Deciding

/-- A JSON text starts with a value of this outline. -/
def OfJson (outline : Outline) (text : String) : Prop := ∃ rest, outline.Spells text.toList rest

instance (outline : Outline) (text : String) : Decidable (outline.OfJson text) :=
  decidable_of_iff (outline.behind? text.toList).isSome <| by
    simp only [OfJson, Option.isSome_iff_exists, behind?_eq_some]

/-- Somewhere in an outline that is read in a role, an object gives a field twice. -/
inductive Repeats : Role → Outline → Prop
  /-- Two keys of an object name one field. -/
  | twice {role : ObjectRole} {field : FieldSchema} {fields : OutlineFields}
      {first second : Option String × Outline} (hfield : field ∈ role.schema)
      (hfirst : field.Names first.1) (hsecond : field.Names second.1)
      (h : [first, second].Sublist fields) : Repeats (.object role) (.object fields)
  /-- A field is repeated within the value of a field. -/
  | field {role : ObjectRole} {field : FieldSchema} {fields : OutlineFields}
      {entry : Option String × Outline} (hfield : field ∈ role.schema)
      (hname : field.Names entry.1) (hmem : entry ∈ fields) (h : Repeats field.role entry.2) :
      Repeats (.object role) (.object fields)
  /-- A field is repeated within a field of an object that is written as an array. -/
  | element {role : ObjectRole} {field : FieldSchema} {items : List Outline} {item : Outline}
      (hmem : (field, item) ∈ role.schema.zip items) (h : Repeats field.role item) :
      Repeats (.object role) (.array items)
  /-- A field is repeated within an item of a list. -/
  | item {role : Role} {items : List Outline} {item : Outline} (hmem : item ∈ items)
      (h : Repeats role item) : Repeats (.list role) (.array items)
  /-- A field is repeated within a value that may be missing. -/
  | optional {role : Role} {outline : Outline} (h : Repeats role outline) :
      Repeats (.optional role) outline
  /-- A field is repeated within a payload. -/
  | payload {name : String} {role : ObjectRole} {fields : OutlineFields} {value : Outline}
      (hname : (name, role) ∈ ObjectRole.variants) (hmem : (some name, value) ∈ fields)
      (h : Repeats (.object role) value) : Repeats .expr (.object fields)
  /-- A field is repeated within parentheses. -/
  | paren {fields : OutlineFields} {value : Outline} (hmem : (some "paren", value) ∈ fields)
      (h : Repeats .expr value) : Repeats .expr (.object fields)

/-- What is read as a scalar has no fields. -/
theorem not_repeats_scalar (outline : Outline) : ¬outline.Repeats .scalar := nofun

/-- A scalar has no fields in any role. -/
theorem scalar_not_repeats {role : Role} : ¬scalar.Repeats role := by
  intro h
  generalize houtline : Outline.scalar = outline at h
  induction h with
  | optional _ ih => exact ih houtline
  | _ => cases houtline

end Outline

end AggQuery
