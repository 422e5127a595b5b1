import AggQuery.Proofs.Reading.Skipping
import AggQuery.Reading.OfDocument
import AggQuery.Reading.OfText

/-!
# Reading a text like its document

A reader of texts agrees with a reader of documents where both give one value, and the
former stops right behind the text of the document, or where both fail. The lemmas here
carry agreement through the parts of which the readers are made: scalars, the values of
variants, arrays and the fields of objects.

## Implementation notes

Only values are compared. Which error a reader gives depends on the route: the reader of
texts gives the first one in the text.
-/

namespace AggQuery

open Lexeme Document TextReader

variable {α β σ ν : Type}

/-- Reading a text gave the value that reading its document gave, and stopped before `rest`;
or both failed. -/
inductive Agrees (rest : List Char) :
    Except ReadError (α × List Char) → Except ShapeError α → Prop
  | value (x : α) : Agrees rest (.ok (x, rest)) (.ok x)
  | failure (e : ReadError) (e' : ShapeError) : Agrees rest (.error e) (.error e')

/-- On the compact text of a document, a reader agrees with what reading the document gives,
unless the text that follows continues a number. -/
def ReadsLike (reader : List Char → Except ReadError (α × List Char)) (document : Document)
    (expected : Except ShapeError α) : Prop :=
  ∀ rest, EndsNumber rest → Agrees rest (reader (compactOnto document rest)) expected

namespace Agrees

variable {rest after : List Char} {result : Except ReadError (α × List Char)}
  {expected : Except ShapeError α}

theorem map (h : Agrees rest result expected) (f : α → β) :
    Agrees rest (result.map fun (x, text) => (f x, text)) (f <$> expected) := by
  cases h with
  | value x => exact .value (f x)
  | failure e e' => exact .failure e e'

theorem put (h : Agrees rest result expected) (f : α → β) :
    Agrees rest (result.map fun (x, text) => (f x, text)) (do .ok (f (← expected))) := by
  cases h with
  | value x => exact .value (f x)
  | failure e e' => exact .failure e e'

/-- Readers that agree can be followed by readers that agree on every value. -/
theorem bind (h : Agrees rest result expected)
    {next : α × List Char → Except ReadError (β × List Char)} {take : α → Except ShapeError β}
    (hnext : ∀ x, Agrees after (next (x, rest)) (take x)) :
    Agrees after (result >>= next) (expected >>= take) := by
  cases h with
  | value x => exact hnext x
  | failure e e' => exact .failure e e'

/-- A check of the shape is the same in both routes. -/
theorem shaped (rest : List Char) (expected : Except ShapeError α) :
    Agrees rest (do .ok (← TextReader.shaped expected, rest)) expected := by
  cases expected with
  | ok x => exact .value x
  | error e => exact .failure _ e

end Agrees

namespace Document

/-- The characters that the text of a document of this kind can start with. -/
def Opens : Document → Char → Prop
  | .null, c => c = 'n'
  | .boolean _, c => c = 't' ∨ c = 'f'
  | .number _, c => c = '-' ∨ c.isDigit = true
  | .string _, c => c = '"'
  | .array _, c => c = '['
  | .object _, c => c = '\x7b'

theorem exists_opening {document : Document} (h : document.Legible NumberReads)
    (rest : List Char) :
    ∃ c tail, compactOnto document rest = c :: tail ∧ isBlank c = false ∧ document.Opens c := by
  obtain ⟨c, tail, htext, hblank, -⟩ := exists_head h rest
  refine ⟨c, tail, htext, hblank, ?_⟩
  cases h with
  | null => exact (List.cons.inj htext).1.symm
  | boolean b =>
      cases b
      · exact Or.inr (List.cons.inj htext).1.symm
      · exact Or.inl (List.cons.inj htext).1.symm
  | number h =>
      obtain ⟨first, more, hfirst, hc⟩ := h.head
      rw [compactOnto, hfirst] at htext
      obtain ⟨rfl, -⟩ := List.cons.inj htext
      exact hc
  | string s => exact (List.cons.inj htext).1.symm
  | @array items _ => cases items <;> exact (List.cons.inj htext).1.symm
  | @object fields _ _ => cases fields <;> exact (List.cons.inj htext).1.symm

theorem Opens.number {document : Document} {c : Char} (h : document.Opens c)
    (hc : c = '-' ∨ c.isDigit = true) : ∃ n, document = .number n := by
  cases document with
  | number n => exact ⟨n, rfl⟩
  | boolean b => rcases h with rfl | rfl <;> simp at hc
  | _ =>
      obtain rfl := h
      simp at hc

/-- The text of an array behind its opening bracket. -/
def itemsOnto (items : List Document) (rest : List Char) : List Char :=
  match items with
  | [] => ']' :: rest
  | item :: items => compactOnto item (compactItemsOnto items (']' :: rest))

/-- The text of an object behind its opening brace. -/
def fieldsOnto (fields : Fields) (rest : List Char) : List Char :=
  match fields with
  | [] => '\x7d' :: rest
  | (key, value) :: fields =>
    quoteOnto key (':' :: compactOnto value (compactFieldsOnto fields ('\x7d' :: rest)))

theorem compactOnto_array (items : List Document) (rest : List Char) :
    compactOnto (.array items) rest = '[' :: itemsOnto items rest := by
  cases items <;> rfl

theorem compactOnto_object (fields : Fields) (rest : List Char) :
    compactOnto (.object fields) rest = '\x7b' :: fieldsOnto fields rest := by
  cases fields <;> rfl

end Document

namespace TextReader

/-- A string is read where the text starts with a quote. -/
theorem string_quoteOnto (wanted s : String) (rest : List Char) :
    TextReader.string wanted (quoteOnto s rest) = .ok (s, rest) := by
  obtain ⟨text, htext, hread⟩ := readString_quoteOnto s rest
  rw [htext, TextReader.string, skipBlanks_cons (by decide)]
  change lexed (readString [] text) = .ok (s, rest)
  rw [hread]
  rfl

theorem string_error (wanted : String) {c : Char} (hblank : isBlank c = false) (hquote : c ≠ '"')
    (text : List Char) : ∃ e, TextReader.string wanted (c :: text) = .error e := by
  rw [TextReader.string, skipBlanks_cons hblank]
  split
  · next heq => cases heq
  · next heq => exact absurd (List.cons.inj heq).1 hquote
  · exact ⟨_, rfl⟩

theorem number_error (wanted : String) (check : Number → Except ShapeError α) {c : Char}
    (hblank : isBlank c = false) (hnumber : ¬(c = '-' ∨ c.isDigit = true)) (text : List Char) :
    ∃ e, TextReader.number wanted check (c :: text) = .error e := by
  rw [TextReader.number, skipBlanks_cons hblank]
  exact ⟨_, if_neg hnumber⟩

theorem boolean_error {c : Char} (hblank : isBlank c = false) (htrue : c ≠ 't')
    (hfalse : c ≠ 'f') (text : List Char) : ∃ e, TextReader.boolean (c :: text) = .error e := by
  rw [TextReader.boolean, skipBlanks_cons hblank]
  split
  · next heq => cases heq
  · next heq => exact absurd (List.cons.inj heq).1 htrue
  · next heq => exact absurd (List.cons.inj heq).1 hfalse
  · exact ⟨_, rfl⟩

theorem unit_error {c : Char} (hblank : isBlank c = false) (hnull : c ≠ 'n') (text : List Char) :
    ∃ e, TextReader.unit (c :: text) = .error e := by
  rw [TextReader.unit, skipBlanks_cons hblank]
  split
  · next heq => cases heq
  · next heq => exact absurd (List.cons.inj heq).1 hnull
  · exact ⟨_, rfl⟩

theorem variantStart_error {c : Char} (hblank : isBlank c = false) (hquote : c ≠ '"')
    (hobject : c ≠ '\x7b') (text : List Char) : ∃ e, variantStart (c :: text) = .error e := by
  rw [variantStart, skipBlanks_cons hblank]
  split
  · next heq => cases heq
  · next heq => exact absurd (List.cons.inj heq).1 hquote
  · next heq => exact absurd (List.cons.inj heq).1 hobject
  · exact ⟨_, rfl⟩

end TextReader

theorem agrees_number {n : Number} (h : NumberReads n) (wanted : String)
    (check : Number → Except ShapeError α) {rest : List Char} (hrest : EndsNumber rest) :
    Agrees rest (TextReader.number wanted check (compactOnto (.number n) rest)) (check n) := by
  obtain ⟨c, tail, htext, hc⟩ := h.head
  have hread := h rest hrest
  rw [htext, List.cons_append] at hread
  rw [compactOnto, htext, List.cons_append, TextReader.number,
    skipBlanks_cons (isBlank_of_numberStart hc)]
  dsimp only
  rw [if_pos hc, hread]
  exact .shaped rest (check n)

section Scalars

variable {document : Document} (hlegible : document.Legible NumberReads)

include hlegible

/-- Both readers fail on a document whose kind they do not take. -/
theorem ReadsLike.of_error {reader : List Char → Except ReadError (α × List Char)}
    (e : ShapeError)
    (h : ∀ c text, isBlank c = false → document.Opens c → ∃ e, reader (c :: text) = .error e) :
    ReadsLike reader document (.error e) := by
  intro rest _
  obtain ⟨c, text, htext, hblank, hopens⟩ := exists_opening hlegible rest
  obtain ⟨e', herror⟩ := h c text hblank hopens
  rw [htext, herror]
  exact .failure e' e

theorem readsLike_string (wanted : String) :
    ReadsLike (TextReader.string wanted) document document.toText := by
  cases document with
  | string s =>
      intro rest _
      rw [compactOnto, string_quoteOnto]
      exact .value s
  | _ =>
      apply ReadsLike.of_error hlegible
      intro c text hblank hopens
      apply string_error wanted hblank
      rintro rfl
      simp [Opens] at hopens

/-- A number is taken by any check; all else is refused. -/
theorem readsLike_number (wanted : String) (check : Number → Except ShapeError α) :
    ReadsLike (TextReader.number wanted check) document
      (match document with
        | .number n => check n
        | d => .error (.invalidType d.found wanted)) := by
  cases document with
  | number n =>
      intro rest hrest
      cases hlegible with
      | number h => exact agrees_number h wanted check hrest
  | _ =>
      apply ReadsLike.of_error hlegible
      intro c text hblank hopens
      apply number_error wanted check hblank
      intro hc
      obtain ⟨n, hn⟩ := hopens.number hc
      cases hn

theorem readsLike_count : ReadsLike count document document.toCount := by
  have h := readsLike_number hlegible "usize" Number.toCount
  cases document <;> exact h

theorem readsLike_integer : ReadsLike integer document document.toInteger := by
  have h := readsLike_number hlegible "i64" Number.toInteger
  cases document <;> exact h

theorem readsLike_float : ReadsLike float document document.toFloat := by
  have h := readsLike_number hlegible "f64" fun n => .ok n.toFloat
  cases document <;> exact h

theorem readsLike_boolean : ReadsLike TextReader.boolean document document.toBoolean := by
  cases document with
  | boolean b =>
      intro rest _
      cases b <;> exact .value _
  | _ =>
      apply ReadsLike.of_error hlegible
      intro c text hblank hopens
      apply boolean_error hblank
      · rintro rfl
        simp [Opens] at hopens
      · rintro rfl
        simp [Opens] at hopens

theorem readsLike_unit : ReadsLike TextReader.unit document document.toUnit := by
  cases document with
  | null =>
      intro rest _
      exact .value ()
  | _ =>
      apply ReadsLike.of_error hlegible
      intro c text hblank hopens
      apply unit_error hblank
      rintro rfl
      simp [Opens] at hopens

end Scalars

section Variants

/-- A string is the name of a variant, and an object one with a payload; no other document
is a variant. -/
theorem variantStart_string (name : String) (rest : List Char) :
    variantStart (compactOnto (.string name) rest) = .ok (some name, rest) := by
  obtain ⟨text, htext, hread⟩ := readString_quoteOnto name rest
  rw [compactOnto, htext, variantStart, skipBlanks_cons (by decide)]
  change (lexed (readString [] text) >>= fun read => .ok (some read.1, read.2)) = _
  rw [hread]
  rfl

theorem variantStart_object (fields : Fields) (rest : List Char) :
    variantStart (compactOnto (.object fields) rest) = .ok (none, fieldsOnto fields rest) := by
  rw [compactOnto_object]
  rfl

theorem variantKey_nil (ofName : String → Except ShapeError ν) (rest : List Char) :
    ∃ e, variantKey ofName (fieldsOnto [] rest) = .error e := by
  have hclose : isBlank '\x7d' = false := by decide
  obtain ⟨e, herror⟩ := string_error "variant identifier" hclose (by decide) rest
  refine ⟨e, ?_⟩
  rw [variantKey, fieldsOnto, herror]
  rfl

theorem variantKey_cons (ofName : String → Except ShapeError ν) (name : String)
    (payload : Document) (fields : Fields) (rest : List Char) :
    variantKey ofName (fieldsOnto ((name, payload) :: fields) rest) =
      (do .ok (← TextReader.shaped (ofName name),
        compactOnto payload (compactFieldsOnto fields ('\x7d' :: rest)))) := by
  rw [variantKey, fieldsOnto, string_quoteOnto]
  rfl

/-- A payload that is closed, if it is the only field of its object. -/
theorem Agrees.closed {fields : Fields} {rest : List Char}
    {result : Except ReadError (α × List Char)} {expected : Except ShapeError α}
    (h : Agrees (compactFieldsOnto fields ('\x7d' :: rest)) result expected) :
    Agrees rest (TextReader.closed result)
      (if fields = [] then expected else .error (.invalidValue .map "map with a single key")) := by
  cases h with
  | value x =>
      cases fields with
      | nil => exact .value x
      | cons entry fields => exact .failure _ _
  | failure e e' =>
      split
      · exact .failure e e'
      · exact .failure e _

/-- Reading the only field of an object as a variant with a payload. -/
def variantOfFields (ofName : String → Except ShapeError ν)
    (take : ν → Document → Except ShapeError α) : Fields → Except ShapeError α
  | [(name, payload)] => do take (← ofName name) payload
  | _ => .error (.invalidValue .map "map with a single key")

/-- A variant with a payload agrees where its payload does. -/
theorem agrees_variant {ofName : String → Except ShapeError ν}
    {read : ν → List Char → Except ReadError (α × List Char)}
    {take : ν → Document → Except ShapeError α} {fields : Fields}
    (h : ∀ name payload variant, (name, payload) ∈ fields → ofName name = .ok variant →
      ReadsLike (read variant) payload (take variant payload)) (rest : List Char) :
    Agrees rest
      (variantKey ofName (fieldsOnto fields rest) >>= fun (variant, text) =>
        TextReader.closed (read variant text))
      (variantOfFields ofName take fields) := by
  cases fields with
  | nil =>
      obtain ⟨e, herror⟩ := variantKey_nil ofName rest
      rw [herror]
      exact .failure e _
  | cons entry fields =>
      obtain ⟨name, payload⟩ := entry
      rw [variantKey_cons]
      cases hname : ofName name with
      | error e =>
          cases fields with
          | nil =>
              rw [variantOfFields, hname]
              exact .failure _ _
          | cons other fields => exact .failure _ _
      | ok variant =>
          have hpayload := h name payload variant List.mem_cons_self hname
          have hclosed := (hpayload _ (endsNumber_compactFieldsOnto fields rest)).closed
          cases fields with
          | nil =>
              rw [variantOfFields, hname]
              exact hclosed
          | cons other fields => exact hclosed

/-- Reading a document as a variant: a string is its name, and an object holds its payload
under the name. -/
def variantOfDocument (named : String → Except ShapeError α)
    (ofName : String → Except ShapeError ν) (take : ν → Document → Except ShapeError α) :
    Document → Except ShapeError α
  | .string name => named name
  | .object fields => variantOfFields ofName take fields
  | d => .error (.invalidType d.found "string or map")

/-- Readers of variants agree where their payloads do. -/
theorem readsLike_variant {document : Document} (hlegible : document.Legible NumberReads)
    {reader : List Char → Except ReadError (α × List Char)}
    {named : String → Except ShapeError α} {ofName : String → Except ShapeError ν}
    (read : ν → List Char → Except ReadError (α × List Char))
    {take : ν → Document → Except ShapeError α}
    (hfault : ∀ text e, variantStart text = .error e → reader text = .error e)
    (hnamed : ∀ text name rest, variantStart text = .ok (some name, rest) →
      reader text = do .ok (← TextReader.shaped (named name), rest))
    (hobject : ∀ fields text rest, document = .object fields →
      variantStart text = .ok (none, rest) →
      reader text = variantKey ofName rest >>= fun (variant, text) =>
        TextReader.closed (read variant text))
    (hpayload : ∀ fields name payload variant, document = .object fields →
      (name, payload) ∈ fields → ofName name = .ok variant →
      ReadsLike (read variant) payload (take variant payload)) :
    ReadsLike reader document (variantOfDocument named ofName take document) := by
  cases document with
  | string name =>
      intro rest _
      rw [hnamed _ name rest (variantStart_string name rest)]
      exact .shaped rest (named name)
  | object fields =>
      intro rest _
      rw [hobject fields _ _ rfl (variantStart_object fields rest)]
      apply agrees_variant
      intro name payload variant hmem hname
      exact hpayload fields name payload variant rfl hmem hname
  | _ =>
      apply ReadsLike.of_error hlegible
      intro c text hblank hopens
      obtain ⟨e, herror⟩ : ∃ e, variantStart (c :: text) = .error e := by
        apply variantStart_error hblank
        · rintro rfl
          simp [Opens] at hopens
        · rintro rfl
          simp [Opens] at hopens
      exact ⟨e, hfault _ e herror⟩

theorem toUnitVariant_eq (ofName : String → Except ShapeError α) (document : Document) :
    document.toUnitVariant ofName =
      variantOfDocument ofName ofName
        (fun variant payload => (fun _ => variant) <$> payload.toUnit) document := by
  have hright (result : Except ShapeError α) : (do .ok (← result)) = result := by
    cases result <;> rfl
  match document with
  | .string name => exact hright (ofName name)
  | .object [] | .object (_ :: _ :: _) => rfl
  | .object [(name, payload)] =>
      cases hname : ofName name <;> cases hunit : payload.toUnit <;>
        simp [Document.toUnitVariant, Document.toVariant, variantOfDocument, variantOfFields,
          hname, hunit, bind, Except.bind, Functor.map, Except.map]
  | .null | .boolean _ | .number _ | .array _ => rfl

theorem budget_ne_zero {budget : Nat} {fields : Fields}
    (hdepth : (Document.object fields).depth ≤ budget) : budget ≠ 0 := by
  rw [Document.depth] at hdepth
  omega

theorem budget_ne_zero_of_array {budget : Nat} {items : List Document}
    (hdepth : (Document.array items).depth ≤ budget) : budget ≠ 0 := by
  rw [Document.depth] at hdepth
  omega

theorem readsLike_operator (ofName : String → Except ShapeError α) {document : Document}
    (hlegible : document.Legible NumberReads) {budget : Nat} (hdepth : document.depth ≤ budget) :
    ReadsLike (operatorOfText ofName budget) document (document.toUnitVariant ofName) := by
  rw [toUnitVariant_eq]
  apply readsLike_variant hlegible fun variant text =>
    (TextReader.unit text).map fun read => (variant, read.2)
  · intro text e h
    rw [operatorOfText, h]
    rfl
  · intro text name rest h
    rw [operatorOfText, h]
    rfl
  · rintro fields text rest rfl h
    rw [operatorOfText, h]
    change (if budget = 0 then malformed else _) = _
    rw [if_neg (budget_ne_zero hdepth)]
  · rintro fields name payload variant rfl hmem -
    intro rest hrest
    exact (readsLike_unit (hlegible.of_mem hmem) rest hrest).map fun _ => variant

end Variants

end AggQuery
