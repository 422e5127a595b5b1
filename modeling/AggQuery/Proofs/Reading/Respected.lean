import AggQuery.Proofs.Reading.Relayout
import AggQuery.Proofs.Reading.Spelled

/-!
# Readers respect outlines

What a reader of JSON text takes has an outline, in which no object gives a field twice
(`Respects`). Here this is said of the readers of scalars and, once the readers of the parts are
known to respect outlines, of the loops over the elements of an array and the fields of an object
and of a variant with its payload.

## Implementation notes

A field that is taken is filled, and stays so; the loop over an object takes no filled field. So
its outcome says of every field still to come that it is not filled yet (`members_eq_ok`), which
is what keeps two keys of one field apart.
-/

namespace AggQuery

open Lexeme TextReader Outline

variable {α β σ φ : Type} {role : Role} {reader : List Char → Except ReadError (α × List Char)}
  {text start inside behind rest after : List Char} {first : Bool} {x : α}

/-- What a reader takes is a value, and no object of this value repeats a field. -/
def Respects (role : Role) (reader : List Char → Except ReadError (α × List Char)) : Prop :=
  ∀ ⦃text x after⦄, reader text = .ok (x, after) →
    ∃ outline : Outline, outline.Spells text after ∧ ¬outline.Repeats role

/-- A reader that takes nothing respects outlines. -/
theorem respects_of_refusal (h : ∀ text x, reader text ≠ .ok x) : Respects role reader :=
  fun text x after hread => absurd hread (h text (x, after))

section Outcomes

theorem lexed_eq_ok {result : Except TextFault α} (h : lexed result = .ok x) : result = .ok x := by
  cases result with
  | error e => cases h
  | ok y => exact congrArg Except.ok (Except.ok.inj h)

theorem shaped_eq_ok {result : Except ShapeError α} (h : shaped result = .ok x) :
    result = .ok x := by
  cases result with
  | error e => cases h
  | ok y => exact congrArg Except.ok (Except.ok.inj h)

theorem exists_of_map_pair_eq_ok {result : Except ReadError (α × List Char)}
    {f : α × List Char → β × List Char} {y : β} (h : result.map f = .ok (y, after))
    (hf : ∀ found, (f found).2 = found.2) : ∃ x, result = .ok (x, after) := by
  cases result with
  | error e => cases h
  | ok found =>
      obtain rfl : found.2 = after := (hf found).symm.trans (congrArg Prod.snd (Except.ok.inj h))
      exact ⟨found.1, rfl⟩

theorem Respects.map (h : Respects role reader) (f : α → β) :
    Respects role fun text => (reader text).map fun (x, rest) => (f x, rest) := by
  intro text y after hread
  obtain ⟨x, hx⟩ := exists_of_map_pair_eq_ok hread fun _ => rfl
  exact h hx

end Outcomes

section Scalars

/-- A reader of scalars that stops where the skipper does. -/
theorem respects_scalar
    (h : ∀ {text x after}, reader text = .ok (x, after) →
      skipScalar (skipBlanks text) = .ok after) : Respects .scalar reader :=
  fun _ _ _ hread => ⟨.scalar, h hread, not_repeats_scalar _⟩

theorem string_eq_ok {wanted s : String} (h : TextReader.string wanted text = .ok (s, after)) :
    ∃ quoted, skipBlanks text = '"' :: quoted ∧ readString [] quoted = .ok (s, after) := by
  unfold TextReader.string at h
  split at h
  · cases h
  · next quoted htext => exact ⟨quoted, htext, lexed_eq_ok h⟩
  · cases h

theorem respects_string (wanted : String) : Respects .scalar (TextReader.string wanted) := by
  apply respects_scalar
  intro text s after h
  obtain ⟨quoted, htext, hread⟩ := string_eq_ok h
  rw [htext]
  exact skipString_of_readString hread

theorem respects_number (wanted : String) (check : Number → Except ShapeError α) :
    Respects .scalar (TextReader.number wanted check) := by
  apply respects_scalar
  intro text x after h
  unfold TextReader.number at h
  split at h
  · cases h
  · next c inside htext =>
      split at h
      · next hc =>
          obtain ⟨found, hfound, hcheck⟩ := exists_of_bind_eq_ok h
          obtain ⟨value, -, hvalue⟩ := exists_of_bind_eq_ok hcheck
          obtain rfl : found.2 = after := congrArg Prod.snd (Except.ok.inj hvalue)
          rw [htext, skipScalar_number hc]
          exact skipNumber_of_readNumber (lexed_eq_ok hfound)
      · cases h

/-- A word that stands for a value. -/
theorem word_eq_ok {letters : List Char} {y : α}
    (h : (lexed (word letters inside) >>= fun rest => .ok (x, rest)) = .ok (y, after)) :
    word letters inside = .ok after := by
  obtain ⟨rest, hrest, hafter⟩ := exists_of_bind_eq_ok h
  obtain rfl : rest = after := congrArg Prod.snd (Except.ok.inj hafter)
  exact lexed_eq_ok hrest

theorem respects_boolean : Respects .scalar TextReader.boolean := by
  apply respects_scalar
  intro text x after h
  unfold TextReader.boolean at h
  split at h
  · cases h
  · next inside htext =>
      rw [htext]
      exact word_eq_ok h
  · next inside htext =>
      rw [htext]
      exact word_eq_ok h
  · cases h

theorem respects_unit : Respects .scalar TextReader.unit := by
  apply respects_scalar
  intro text x after h
  unfold TextReader.unit at h
  split at h
  · cases h
  · next inside htext =>
      rw [htext]
      exact word_eq_ok h
  · cases h

end Scalars

section Arrays

variable {items : List Outline} {element : List Char → Except ReadError (α × List Char)}

theorem nextElement_eq_some (h : nextElement first text = .ok (some start)) :
    ∃ item, Continues first text item ∧ skipBlanks start = skipBlanks item := by
  unfold nextElement at h
  split at h
  · cases h
  next c inside htext =>
  split at h
  · cases h
  split at h
  · next hfirst =>
      obtain rfl := Option.some.inj (Except.ok.inj h)
      exact ⟨text, by rw [Continues, if_pos hfirst], (skipBlanks_of_eq_cons htext).trans htext.symm⟩
  next hfirst =>
  split at h
  · next hcomma =>
      refine ⟨inside, ?_, ?_⟩
      · rw [Continues, if_neg hfirst, htext, hcomma]
      · split at h
        · cases h
        · cases h
        · obtain rfl := Option.some.inj (Except.ok.inj h)
          exact skipBlanks_skipBlanks inside
  · cases h

theorem endOfArray_eq_ok (h : endOfArray text = .ok after) : SpellsItems [] first text after := by
  unfold endOfArray at h
  split at h
  · cases h
  · next rest htext =>
      obtain rfl := Except.ok.inj h
      exact htext
  · cases h

/-- Behind the last element that is read, the array ends. -/
theorem finished_eq_ok {y : α}
    (h : (endOfArray text >>= fun rest => .ok (x, rest)) = .ok (y, after)) :
    SpellsItems [] first text after := by
  obtain ⟨behind, hbehind, hrest⟩ := exists_of_bind_eq_ok h
  obtain rfl : behind = after := congrArg Prod.snd (Except.ok.inj hrest)
  exact endOfArray_eq_ok hbehind

/-- An element that was found is read. -/
theorem foundElement_eq_ok (hrespects : Respects role element)
    (hnext : nextElement first text = .ok (some start)) (hread : element start = .ok (x, after)) :
    ∃ item : Outline, ¬item.Repeats role ∧ ∀ {more rest}, SpellsItems more false after rest →
      SpellsItems (item :: more) first text rest := by
  obtain ⟨begin, hbegin, hblanks⟩ := nextElement_eq_some hnext
  obtain ⟨item, hitem, hone⟩ := hrespects hread
  exact ⟨item, hone, fun hmore =>
    ⟨begin, after, hbegin, (spells_congr hblanks).mp hitem, hmore⟩⟩

/-- The loop over the elements of an array takes all of them. -/
theorem elements_eq_ok (hrespects : Respects role element) {fuel : Nat} {acc xs : List α}
    (h : elements element fuel first acc text = .ok (xs, after)) :
    ∃ items, SpellsItems items first text after ∧ ∀ item ∈ items, ¬item.Repeats role := by
  induction fuel generalizing first acc text with
  | zero => cases h
  | succ fuel ih =>
      rw [elements] at h
      obtain ⟨next, hnext, h⟩ := exists_of_bind_eq_ok h
      cases next with
      | none => exact ⟨[], finished_eq_ok h, List.forall_mem_nil _⟩
      | some start =>
          obtain ⟨⟨x, behind⟩, hx, hmore⟩ := exists_of_bind_eq_ok h
          obtain ⟨item, hone, hspell⟩ := foundElement_eq_ok hrespects hnext hx
          obtain ⟨items, hitems, hall⟩ := ih hmore
          exact ⟨item :: items, hspell hitems, List.forall_mem_cons.mpr ⟨hone, hall⟩⟩

/-- A reader of arrays respects outlines if the reader of their elements does. -/
theorem respects_list {reader : List Char → Except ReadError (List α × List Char)}
    (h : ∀ {text xs after}, reader text = .ok (xs, after) → ∃ inside element fuel,
      skipBlanks text = '[' :: inside ∧ Respects role element ∧
        elements element fuel true [] inside = .ok (xs, after)) :
    Respects (.list role) reader := by
  intro text xs after hread
  obtain ⟨inside, element, fuel, htext, hrespects, hread⟩ := h hread
  obtain ⟨items, hitems, hall⟩ := elements_eq_ok hrespects hread
  refine ⟨.array items, ⟨inside, htext, hitems⟩, fun hrepeats => ?_⟩
  cases hrepeats with
  | item hmem h => exact hall _ hmem h

/-- One more element of the array form is read. -/
theorem nextOf_eq_ok (hrespects : Respects role element) {wanted : String} {read : Nat}
    (h : Expr.nextOf wanted read element text = .ok (x, after)) :
    ∃ item : Outline, ¬item.Repeats role ∧ ∀ {more rest}, SpellsItems more false after rest →
      SpellsItems (item :: more) (read == 0) text rest := by
  unfold Expr.nextOf at h
  obtain ⟨next, hnext, hread⟩ := exists_of_bind_eq_ok h
  cases next with
  | none => cases hread
  | some start => exact foundElement_eq_ok hrespects hnext hread

end Arrays

section Objects

/-- A key that is read, and the colon behind it. -/
theorem spellsKey_of_readString {quoted : List Char} {name : String}
    (htext : skipBlanks start = '"' :: quoted) (hread : readString [] quoted = .ok (name, behind))
    (hcolon : colon behind = .ok inside) : SpellsKey (some name) start inside :=
  ⟨quoted, behind, htext, by rw [keyAt, hread], skipString_of_readString hread, hcolon⟩

theorem key_eq_ok {found : Option String} (h : nextKey.key text = .ok (found, behind)) :
    ∃ name quoted, found = some name ∧ text = '"' :: quoted ∧
      readString [] quoted = .ok (name, behind) := by
  unfold nextKey.key at h
  split at h
  · cases h
  · next quoted =>
      obtain ⟨⟨name, after⟩, hname, hfound⟩ := exists_of_bind_eq_ok h
      obtain ⟨rfl, rfl⟩ := Prod.mk.inj (Except.ok.inj hfound)
      exact ⟨name, quoted, rfl, rfl, lexed_eq_ok hname⟩
  · cases h

/-- The next key of an object, or its closing brace. -/
theorem nextKey_eq_ok {found : Option String} (h : nextKey first text = .ok (found, behind)) :
    (found = none ∧ SpellsFields [] first text behind) ∨
      ∃ name start, found = some name ∧ Continues first text start ∧
        ∀ {inside}, colon behind = .ok inside → SpellsKey (some name) start inside := by
  unfold nextKey at h
  split at h
  · cases h
  next c rest htext =>
  split at h
  · next hclose =>
      obtain ⟨rfl, rfl⟩ := Prod.mk.inj (Except.ok.inj h)
      exact .inl ⟨rfl, htext.trans (congrArg (· :: rest) hclose)⟩
  split at h
  · next hfirst =>
      obtain ⟨name, quoted, rfl, hquoted, hread⟩ := key_eq_ok h
      exact .inr ⟨name, text, rfl, by rw [Continues, if_pos hfirst],
        spellsKey_of_readString (htext.trans hquoted) hread⟩
  next hfirst =>
  split at h
  · next hcomma =>
      obtain ⟨name, quoted, rfl, hquoted, hread⟩ := key_eq_ok h
      refine .inr ⟨name, rest, rfl, ?_, spellsKey_of_readString hquoted hread⟩
      rw [Continues, if_neg hfirst, htext, hcomma]
  · cases h

theorem ignored_eq_ok {slots final : σ} (h : ignored slots text = .ok (final, after)) :
    final = slots ∧ ∃ inside, colon text = .ok inside ∧
      ∃ outline : Outline, outline.Spells inside after := by
  obtain ⟨inside, hcolon, h⟩ := exists_of_bind_eq_ok h
  obtain ⟨behind, hbehind, hfinal⟩ := exists_of_bind_eq_ok h
  obtain ⟨rfl, rfl⟩ := Prod.mk.inj (Except.ok.inj hfinal)
  exact ⟨rfl, inside, lexed_eq_ok hcolon, exists_spells_of_skipValue hbehind⟩

end Objects

section Roles

/-- Taking one field of an object in a text. -/
def ObjectReader.takeText (reader : ObjectReader σ φ α)
    (value : (field : φ) → List Char → Except ReadError (reader.Value field × List Char))
    (slots : σ) (key : String) (text : List Char) : Except ReadError (σ × List Char) :=
  match reader.field? key with
  | none => ignored slots text
  | some field =>
    member (reader.filled slots field) (reader.name field) (value field)
      (fun x => reader.set field x slots) text

variable {reader : ObjectReader σ φ α} {schema : φ → FieldSchema} {role : ObjectRole}
  {value : (field : φ) → List Char → Except ReadError (reader.Value field × List Char)}
  {slots next final : σ} {key : String} {fields : OutlineFields}

/-- A field that is taken was not filled before, and is from then on. Its value repeats no
field, and other fields stay as they are. -/
theorem takeText_eq_ok (hvalue : ∀ field, Respects (schema field).role (value field))
    (h : reader.takeText value slots key text = .ok (next, after)) :
    ∃ inside, ∃ outline : Outline, colon text = .ok inside ∧ outline.Spells inside after ∧
      (∀ field, reader.filled slots field = true → reader.filled next field = true) ∧
      ∀ field, reader.field? key = some field → reader.filled slots field = false ∧
        reader.filled next field = true ∧ ¬outline.Repeats (schema field).role := by
  unfold ObjectReader.takeText at h
  cases hfield : reader.field? key with
  | none =>
      rw [hfield] at h
      obtain ⟨rfl, inside, hcolon, outline, hspell⟩ := ignored_eq_ok h
      exact ⟨inside, outline, hcolon, hspell, fun _ hfilled => hfilled, nofun⟩
  | some field =>
      rw [hfield] at h
      dsimp only at h
      unfold member at h
      cases hnew : reader.filled slots field with
      | true =>
          rw [hnew] at h
          cases h
      | false =>
          rw [hnew, if_neg Bool.false_ne_true] at h
          obtain ⟨inside, hcolon, h⟩ := exists_of_bind_eq_ok h
          obtain ⟨found, hfound, hnext⟩ := exists_of_bind_eq_ok h
          obtain ⟨rfl, rfl⟩ := Prod.mk.inj (Except.ok.inj hnext)
          obtain ⟨outline, hspell, hone⟩ := hvalue field hfound
          refine ⟨inside, outline, lexed_eq_ok hcolon, hspell, fun other hfilled => ?_,
            fun other hother => ?_⟩
          · by_cases heq : field = other
            · exact heq ▸ reader.filled_set_self field _ slots
            · rw [reader.filled_set_of_ne heq, hfilled]
          · obtain rfl := Option.some.inj hother
            exact ⟨hnew, reader.filled_set_self field _ slots, hone⟩

/-- No two keys of some fields name one field. -/
def OutlineFields.DistinctFor (schema : φ → FieldSchema) (fields : OutlineFields) : Prop :=
  fields.Pairwise fun entry other =>
    ∀ field, (schema field).Names entry.1 → ¬(schema field).Names other.1

theorem names_iff (hfollows : reader.Follows schema role) {field : φ} :
    (schema field).Names (some key) ↔ reader.field? key = some field := by
  rw [hfollows.field?_eq_some_iff, FieldSchema.names_some]

/-- The loop over the fields of an object takes all of them, and each field once. -/
theorem members_eq_ok (hfollows : reader.Follows schema role)
    (hvalue : ∀ field, Respects (schema field).role (value field)) {fuel : Nat}
    (h : members (reader.takeText value) fuel first slots text = .ok (final, after)) :
    ∃ fields : OutlineFields, SpellsFields fields first text after ∧
      (∀ entry ∈ fields, ∀ field, (schema field).Names entry.1 →
        reader.filled slots field = false ∧ ¬entry.2.Repeats (schema field).role) ∧
      fields.DistinctFor schema := by
  induction fuel generalizing first slots text with
  | zero => cases h
  | succ fuel ih =>
      rw [members] at h
      obtain ⟨⟨found, behind⟩, hfound, htaken⟩ := exists_of_bind_eq_ok h
      obtain ⟨rfl, hclose⟩ | ⟨name, start, rfl, hstart, hkey⟩ := nextKey_eq_ok hfound
      · obtain rfl : behind = after := congrArg Prod.snd (Except.ok.inj htaken)
        exact ⟨[], hclose, List.forall_mem_nil _, .nil⟩
      obtain ⟨⟨next, last⟩, hnext, hrest⟩ := exists_of_bind_eq_ok htaken
      obtain ⟨inside, outline, hcolon, hspell, hkept, hnew⟩ := takeText_eq_ok hvalue hnext
      obtain ⟨fields, hfields, hall, hdistinct⟩ := ih hrest
      have hfirst (field : φ) (hfield : (schema field).Names (some name)) :
          reader.filled slots field = false ∧ ¬outline.Repeats (schema field).role := by
        obtain ⟨hunfilled, -, hnone⟩ := hnew field ((names_iff hfollows).mp hfield)
        exact ⟨hunfilled, hnone⟩
      have hlater (entry) (hentry : entry ∈ fields) (field : φ)
          (hfield : (schema field).Names entry.1) :
          reader.filled slots field = false ∧ ¬entry.2.Repeats (schema field).role := by
        obtain ⟨hunfilled, hnone⟩ := hall entry hentry field hfield
        refine ⟨Bool.eq_false_iff.mpr fun hfilled => ?_, hnone⟩
        rw [hkept field hfilled] at hunfilled
        cases hunfilled
      have hother (entry) (hentry : entry ∈ fields) (field : φ)
          (hfield : (schema field).Names (some name)) : ¬(schema field).Names entry.1 := by
        intro hagain
        obtain ⟨-, hfilled, -⟩ := hnew field ((names_iff hfollows).mp hfield)
        rw [(hall entry hentry field hagain).1] at hfilled
        cases hfilled
      exact ⟨(some name, outline) :: fields,
        ⟨start, inside, last, hstart, hkey hcolon, hspell, hfields⟩,
        List.forall_mem_cons.mpr ⟨hfirst, hlater⟩, List.pairwise_cons.mpr ⟨hother, hdistinct⟩⟩

/-- An object whose fields are taken once each repeats no field. -/
theorem not_repeats_object (hfollows : reader.Follows schema role)
    (hone : ∀ entry ∈ fields, ∀ field, (schema field).Names entry.1 →
      ¬entry.2.Repeats (schema field).role)
    (hdistinct : fields.DistinctFor schema) :
    ¬(Outline.object fields).Repeats (.object role) := by
  intro h
  cases h with
  | twice hrule hfirst hsecond hsublist =>
      obtain ⟨field, rfl⟩ := hfollows.exists_field hrule
      have hpair := hdistinct.sublist hsublist
      exact (List.pairwise_cons.mp hpair).1 _ (List.mem_singleton_self _) field hfirst hsecond
  | field hrule hname hmem h =>
      obtain ⟨field, rfl⟩ := hfollows.exists_field hrule
      exact hone _ hmem field hname h

/-- Behind the brace of an object, a reader takes every field once. -/
theorem object_eq_ok (hfollows : reader.Follows schema role)
    (value : (field : φ) → List Char → Except ReadError (reader.Value field × List Char))
    (hvalue : ∀ field, Respects (schema field).role (value field))
    {field : σ → String → List Char → Except ReadError (σ × List Char)} {fuel : Nat}
    (h : members field fuel true slots inside = .ok (final, after))
    (hfield : ∀ slots key text, field slots key text = reader.takeText value slots key text) :
    ∃ fields, SpellsFields fields true inside after ∧
      ¬(Outline.object fields).Repeats (.object role) := by
  obtain rfl : field = reader.takeText value :=
    funext fun slots => funext fun key => funext (hfield slots key)
  obtain ⟨fields, hspell, hall, hdistinct⟩ := members_eq_ok hfollows hvalue h
  exact ⟨fields, hspell, not_repeats_object hfollows
    (fun entry hmem field hname => (hall entry hmem field hname).2) hdistinct⟩

/-- An array repeats no field if none of the values at the positions of the fields does. -/
theorem not_repeats_array {items : List Outline}
    (h : ∀ entry ∈ role.schema.zip items, ¬entry.2.Repeats entry.1.role) :
    ¬(Outline.array items).Repeats (.object role) := by
  intro hrepeats
  cases hrepeats with
  | element hmem hitem => exact h _ hmem hitem

/-- A reader of the two forms of an object respects outlines if it does behind either bracket. -/
theorem respects_object {reader : List Char → Except ReadError (α × List Char)}
    (h : ∀ {text x after}, reader text = .ok (x, after) →
      (∃ inside, skipBlanks text = '\x7b' :: inside ∧
        ∃ fields, SpellsFields fields true inside after ∧
          ¬(Outline.object fields).Repeats (.object role)) ∨
      ∃ inside, skipBlanks text = '[' :: inside ∧
        ∃ items, SpellsItems items true inside after ∧
          ¬(Outline.array items).Repeats (.object role)) :
    Respects (.object role) reader := by
  intro text x after hread
  obtain ⟨inside, htext, fields, hfields, hnone⟩ | ⟨inside, htext, items, hitems, hnone⟩ := h hread
  · exact ⟨.object fields, ⟨inside, htext, hfields⟩, hnone⟩
  · exact ⟨.array items, ⟨inside, htext, hitems⟩, hnone⟩

end Roles

section Variants

variable {ν : Type} {ofName : String → Except ShapeError ν}

/-- A variant that is given by its name alone is a scalar. -/
theorem variantStart_eq_name {name : String} (h : variantStart text = .ok (some name, after)) :
    Outline.scalar.Spells text after := by
  unfold variantStart at h
  split at h
  · cases h
  · next inside htext =>
      obtain ⟨found, hfound, hname⟩ := exists_of_bind_eq_ok h
      obtain rfl : found.2 = after := congrArg Prod.snd (Except.ok.inj hname)
      rw [Spells, htext]
      exact skipString_of_readString (lexed_eq_ok hfound)
  · cases h
  · cases h

theorem variantStart_eq_object (h : variantStart text = .ok (none, inside)) :
    skipBlanks text = '\x7b' :: inside := by
  unfold variantStart at h
  split at h
  · cases h
  · obtain ⟨found, -, hname⟩ := exists_of_bind_eq_ok h
    cases hname
  · next behind htext =>
      obtain rfl : behind = inside := congrArg Prod.snd (Except.ok.inj h)
      exact htext
  · cases h

theorem variantKey_eq_ok {variant : ν} (h : variantKey ofName inside = .ok (variant, start)) :
    ∃ name, ofName name = .ok variant ∧ SpellsKey (some name) inside start := by
  obtain ⟨⟨name, text⟩, hname, hvariant⟩ := exists_of_bind_eq_ok h
  obtain ⟨variant', hvariant', hcolon⟩ := exists_of_bind_eq_ok hvariant
  obtain ⟨start', hstart, hfound⟩ := exists_of_bind_eq_ok hcolon
  obtain ⟨rfl, rfl⟩ := Prod.mk.inj (Except.ok.inj hfound)
  obtain ⟨quoted, htext, hread⟩ := string_eq_ok hname
  exact ⟨name, shaped_eq_ok hvariant', spellsKey_of_readString htext hread (lexed_eq_ok hstart)⟩

theorem closed_eq_ok {payload : Except ReadError (α × List Char)}
    (h : closed payload = .ok (x, after)) :
    ∃ behind, payload = .ok (x, behind) ∧ SpellsFields [] false behind after := by
  obtain ⟨⟨y, behind⟩, hpayload, hclose⟩ := exists_of_bind_eq_ok h
  dsimp only at hclose
  split at hclose
  · cases hclose
  · next close htext =>
      obtain ⟨rfl, rfl⟩ := Prod.mk.inj (Except.ok.inj hclose)
      exact ⟨behind, hpayload, htext⟩
  · cases hclose

/-- The payload of a variant is the only field of its object. -/
theorem payload_eq_ok {payloadRole : ν → Role}
    {read : ν → List Char → Except ReadError (α × List Char)}
    (hread : ∀ variant, Respects (payloadRole variant) (read variant))
    (h : (variantKey ofName inside >>= fun (variant, text) => closed (read variant text)) =
      .ok (x, after)) :
    ∃ name variant value, SpellsFields [(some name, value)] true inside after ∧
      ofName name = .ok variant ∧ ¬value.Repeats (payloadRole variant) := by
  obtain ⟨⟨variant, start⟩, hvariant, hclosed⟩ := exists_of_bind_eq_ok h
  obtain ⟨name, hname, hkey⟩ := variantKey_eq_ok hvariant
  obtain ⟨behind, hpayload, hend⟩ := closed_eq_ok hclosed
  obtain ⟨value, hvalue, hone⟩ := hread variant hpayload
  exact ⟨name, variant, value, ⟨inside, start, behind, rfl, hkey, hvalue, hend⟩, hname, hone⟩

/-- A reader of variants respects outlines if the readers of their payloads do. -/
theorem respects_variant (ofName : String → Except ShapeError ν) (payloadRole : ν → Role)
    (hreader : ∀ {text x after}, reader text = .ok (x, after) →
      (∃ name, variantStart text = .ok (some name, after)) ∨
      ∃ inside, ∃ read : ν → List Char → Except ReadError (α × List Char),
        variantStart text = .ok (none, inside) ∧
        (∀ variant, Respects (payloadRole variant) (read variant)) ∧
        (variantKey ofName inside >>= fun (variant, text) => closed (read variant text)) =
          .ok (x, after))
    (hscalar : ¬Outline.scalar.Repeats role)
    (hobject : ∀ {name variant value}, ofName name = .ok variant →
      ¬value.Repeats (payloadRole variant) →
      ¬(Outline.object [(some name, value)]).Repeats role) :
    Respects role reader := by
  intro text x after h
  obtain ⟨name, hname⟩ | ⟨inside, read, hinside, hread, hpayload⟩ := hreader h
  · exact ⟨.scalar, variantStart_eq_name hname, hscalar⟩
  · obtain ⟨name, variant, value, hfields, hname, hone⟩ := payload_eq_ok hread hpayload
    exact ⟨.object [(some name, value)], ⟨inside, variantStart_eq_object hinside, hfields⟩,
      hobject hname hone⟩

end Variants

end AggQuery
