import AggQuery.Proofs.Document.Spacing
import AggQuery.Proofs.Reading.Agreement

/-!
# Arrays and objects read like their documents

The loops over the elements of an array and the fields of an object agree with the lists of
items and fields, as soon as the readers of one element or field do. The fuel of a loop is
the length of the text, which is more than the number of its rounds.

## Implementation notes

Readers of objects take the fields of a document with `List.foldlM`, one step for each key.
A step on a key that is unknown leaves the values read so far.
-/

namespace AggQuery

open Lexeme Document TextReader

variable {α β σ : Type}

namespace Document

theorem length_le_compactOnto (document : Document) (rest : List Char) :
    rest.length ≤ (compactOnto document rest).length := by
  rw [compactOnto_eq_spacedOnto 0]
  exact length_le_spacedOnto .tight document 0 rest

theorem length_le_compactItemsOnto (items : List Document) (rest : List Char) :
    items.length + rest.length ≤ (compactItemsOnto items rest).length := by
  rw [compactItemsOnto_eq_spacedItemsOnto 0]
  exact length_le_spacedItemsOnto .tight items 0 rest

theorem length_le_itemsOnto (items : List Document) (rest : List Char) :
    items.length ≤ (itemsOnto items rest).length := by
  cases items with
  | nil => simp
  | cons item items =>
      have hitem := length_le_compactOnto item (compactItemsOnto items (']' :: rest))
      have hitems := length_le_compactItemsOnto items (']' :: rest)
      simp only [itemsOnto, List.length_cons] at hitems ⊢
      omega

theorem length_le_compactFieldsOnto (fields : Fields) (rest : List Char) :
    fields.length + rest.length ≤ (compactFieldsOnto fields rest).length := by
  rw [compactFieldsOnto_eq_spacedFieldsOnto 0]
  exact length_le_spacedFieldsOnto .tight fields 0 rest

theorem length_le_fieldsOnto (fields : Fields) (rest : List Char) :
    fields.length ≤ (fieldsOnto fields rest).length := by
  cases fields with
  | nil => simp
  | cons entry fields =>
      obtain ⟨key, value⟩ := entry
      have hvalue := length_le_compactOnto value (compactFieldsOnto fields ('\x7d' :: rest))
      have hfields := length_le_compactFieldsOnto fields ('\x7d' :: rest)
      simp only [fieldsOnto, quoteOnto, List.length_cons, List.length_append] at hfields ⊢
      omega

end Document

section Arrays

theorem nextElement_skip {blanks : List Char} (h : ∀ c ∈ blanks, isBlank c = true)
    (first : Bool) (text : List Char) :
    nextElement first (blanks ++ text) = nextElement first text := by
  rw [nextElement, nextElement, skipBlanks_append h]

theorem endOfArray_skip {blanks : List Char} (h : ∀ c ∈ blanks, isBlank c = true)
    (text : List Char) : endOfArray (blanks ++ text) = endOfArray text := by
  rw [endOfArray, endOfArray, skipBlanks_append h]

theorem nextElement_close (first : Bool) (rest : List Char) :
    nextElement first (']' :: rest) = .ok none := by
  rw [nextElement, skipBlanks_cons (by decide)]
  rfl

theorem endOfArray_close (rest : List Char) : endOfArray (']' :: rest) = .ok rest := by
  rw [endOfArray, skipBlanks_cons (by decide)]
  rfl

/-- The first element starts behind the blanks. -/
theorem nextElement_first_spaced {item : Document} (h : item.Legible NumberReads)
    {blanks : List Char} (hblanks : ∀ c ∈ blanks, isBlank c = true) (spacing : Spacing)
    (level : Nat) (rest : List Char) :
    nextElement true (blanks ++ spacedOnto spacing item level rest) =
      .ok (some (spacedOnto spacing item level rest)) := by
  obtain ⟨c, tail, htext, hblank, hclose, -⟩ := exists_head_spacedOnto h spacing level rest
  rw [nextElement_skip hblanks, htext, nextElement, skipBlanks_cons hblank]
  dsimp only
  rw [if_neg hclose, if_pos rfl]

/-- A further element starts behind a comma and the blanks there. -/
theorem nextElement_comma_spaced {item : Document} (h : item.Legible NumberReads)
    {blanks : List Char} (hblanks : ∀ c ∈ blanks, isBlank c = true) (spacing : Spacing)
    (level : Nat) (rest : List Char) :
    nextElement false (',' :: (blanks ++ spacedOnto spacing item level rest)) =
      .ok (some (spacedOnto spacing item level rest)) := by
  obtain ⟨c, tail, htext, hblank, hclose, -⟩ := exists_head_spacedOnto h spacing level rest
  rw [htext, nextElement, skipBlanks_cons (by decide)]
  dsimp only
  rw [if_neg (by decide), if_neg Bool.false_ne_true, if_pos rfl, skipBlanks_append hblanks,
    skipBlanks_cons hblank]
  split
  · next heq => cases heq
  · next heq => exact absurd (List.cons.inj heq).1 hclose
  · rfl

theorem nextElement_first {item : Document} (h : item.Legible NumberReads) (rest : List Char) :
    nextElement true (compactOnto item rest) = .ok (some (compactOnto item rest)) := by
  rw [compactOnto_eq_spacedOnto 0]
  exact nextElement_first_spaced h (List.forall_mem_nil _) .tight 0 rest

theorem nextElement_comma {item : Document} (h : item.Legible NumberReads) (rest : List Char) :
    nextElement false (',' :: compactOnto item rest) = .ok (some (compactOnto item rest)) := by
  rw [compactOnto_eq_spacedOnto 0]
  exact nextElement_comma_spaced h (List.forall_mem_nil _) .tight 0 rest

variable {element : List Char → Except ReadError (α × List Char)}
  {take : Document → Except ShapeError α}

theorem map_append_mapM_cons (acc : List α) (item : Document) (items : List Document) :
    (acc.reverse ++ ·) <$> (item :: items).mapM take =
      take item >>= fun x => ((x :: acc).reverse ++ ·) <$> items.mapM take := by
  rw [List.mapM_cons]
  cases take item with
  | error e => rfl
  | ok x => cases items.mapM take <;> simp [bind, Except.bind, pure, Except.pure,
      Functor.map, Except.map]

/-- One element is read, and the loop goes on behind it. -/
theorem elements_step {first : Bool} {text text' : List Char}
    (h : nextElement first text = .ok (some text')) (fuel : Nat) (acc : List α) :
    elements element (fuel + 1) first acc text =
      element text' >>= fun (x, rest) => elements element fuel false (x :: acc) rest := by
  rw [elements, h]
  rfl

theorem elements_close_spaced {blanks : List Char} (h : ∀ c ∈ blanks, isBlank c = true)
    (fuel : Nat) (first : Bool) (acc : List α) (rest : List Char) :
    elements element (fuel + 1) first acc (blanks ++ ']' :: rest) = .ok (acc.reverse, rest) := by
  rw [elements, nextElement_skip h, nextElement_close, endOfArray_skip h, endOfArray_close]
  rfl

theorem elements_close (fuel : Nat) (first : Bool) (acc : List α) (rest : List Char) :
    elements element (fuel + 1) first acc (']' :: rest) = .ok (acc.reverse, rest) :=
  elements_close_spaced (List.forall_mem_nil _) fuel first acc rest

/-- The elements after the first agree with the items after the first. -/
theorem agrees_elements {items : List Document}
    (hlegible : ∀ item ∈ items, item.Legible NumberReads)
    (h : ∀ item ∈ items, ReadsLike element item (take item)) (rest : List Char)
    (acc : List α) {fuel : Nat} (hfuel : items.length < fuel) :
    Agrees rest (elements element fuel false acc (compactItemsOnto items (']' :: rest)))
      ((acc.reverse ++ ·) <$> items.mapM take) := by
  induction items generalizing acc fuel with
  | nil =>
      obtain ⟨less, rfl⟩ := Nat.exists_eq_add_one.mpr hfuel
      have hnil : (acc.reverse ++ ·) <$> ([] : List Document).mapM take = .ok acc.reverse := by
        simp [Functor.map, Except.map, pure, Except.pure]
      rw [compactItemsOnto, elements_close, hnil]
      exact .value acc.reverse
  | cons item items ih =>
      obtain ⟨hitemLegible, hitemsLegible⟩ := List.forall_mem_cons.mp hlegible
      obtain ⟨hitem, hitems⟩ := List.forall_mem_cons.mp h
      obtain ⟨less, rfl⟩ : ∃ less, fuel = less + 1 := Nat.exists_eq_add_one.mpr (by omega)
      rw [compactItemsOnto, elements_step (nextElement_comma hitemLegible _),
        map_append_mapM_cons]
      apply (hitem _ (endsNumber_compactItemsOnto items rest)).bind
      intro x
      exact ih hitemsLegible hitems (x :: acc) (by simpa using hfuel)

/-- The elements of an array agree with its items. -/
theorem agrees_array {items : List Document}
    (hlegible : ∀ item ∈ items, item.Legible NumberReads)
    (h : ∀ item ∈ items, ReadsLike element item (take item)) (rest : List Char) :
    Agrees rest
      (elements element ((itemsOnto items rest).length + 1) true [] (itemsOnto items rest))
      (items.mapM take) := by
  cases items with
  | nil =>
      rw [itemsOnto, elements_close]
      exact .value []
  | cons item items =>
      obtain ⟨hitemLegible, hitemsLegible⟩ := List.forall_mem_cons.mp hlegible
      obtain ⟨hitem, hitems⟩ := List.forall_mem_cons.mp h
      have hfuel := length_le_itemsOnto (item :: items) rest
      have hlist : (item :: items).mapM take =
          take item >>= fun x => ([x].reverse ++ ·) <$> items.mapM take := by
        rw [← map_append_mapM_cons []]
        simp
      rw [List.length_cons] at hfuel
      rw [itemsOnto, elements_step (nextElement_first hitemLegible _), hlist]
      apply (hitem _ (endsNumber_compactItemsOnto items rest)).bind
      intro x
      exact agrees_elements hitemsLegible hitems rest [x] hfuel

end Arrays

section Steps

variable {take : Document → Except ShapeError α}
  {step : σ → String × Document → Except ShapeError σ}

theorem bind_eq_ok_iff {ε : Type} {result : Except ε α} {next : α → Except ε β} {y : β} :
    (result >>= next) = .ok y ↔ ∃ x, result = .ok x ∧ next x = .ok y := by
  cases result <;> simp [bind, Except.bind]

theorem exists_of_bind_eq_ok {ε : Type} {result : Except ε α} {next : α → Except ε β} {y : β}
    (h : (result >>= next) = .ok y) : ∃ x, result = .ok x ∧ next x = .ok y :=
  bind_eq_ok_iff.mp h

theorem exists_of_map_eq_ok {result : Except ShapeError α} {f : α → β} {y : β}
    (h : f <$> result = .ok y) : ∃ x, result = .ok x := by
  cases result with
  | error e => cases h
  | ok x => exact ⟨x, rfl⟩

/-- Where all items are taken, each one is. -/
theorem exists_of_mapM_eq_ok {items : List Document} {xs : List α}
    (h : items.mapM take = .ok xs) {item : Document} (hmem : item ∈ items) :
    ∃ x, take item = .ok x := by
  induction items generalizing xs with
  | nil => cases hmem
  | cons first items ih =>
      rw [List.mapM_cons] at h
      obtain ⟨x, hfirst, hrest⟩ := exists_of_bind_eq_ok h
      obtain ⟨more, hitems, -⟩ := exists_of_bind_eq_ok hrest
      rcases List.mem_cons.mp hmem with rfl | hmem
      · exact ⟨x, hfirst⟩
      · exact ih hitems hmem

/-- Where all fields are taken, each one is, from some values read before it. -/
theorem exists_of_foldlM_eq_ok {fields : Fields} {slots final : σ}
    (h : fields.foldlM step slots = .ok final) {entry : String × Document}
    (hmem : entry ∈ fields) : ∃ before after, step before entry = .ok after := by
  induction fields generalizing slots with
  | nil => cases hmem
  | cons first fields ih =>
      rw [List.foldlM_cons] at h
      obtain ⟨after, hfirst, hrest⟩ := exists_of_bind_eq_ok h
      rcases List.mem_cons.mp hmem with rfl | hmem
      · exact ⟨slots, after, hfirst⟩
      · exact ih hrest hmem

end Steps

section Objects

variable {field : σ → String → List Char → Except ReadError (σ × List Char)}
  {take : σ → String × Document → Except ShapeError σ}

theorem nextKey_skip {blanks : List Char} (h : ∀ c ∈ blanks, isBlank c = true)
    (first : Bool) (text : List Char) : nextKey first (blanks ++ text) = nextKey first text := by
  rw [nextKey, nextKey, skipBlanks_append h]

theorem nextKey_close (first : Bool) (rest : List Char) :
    nextKey first ('\x7d' :: rest) = .ok (none, rest) := by
  rw [nextKey, skipBlanks_cons (by decide)]
  rfl

theorem key_quoteOnto (key : String) (rest : List Char) :
    nextKey.key (quoteOnto key rest) = .ok (some key, rest) := by
  obtain ⟨text, htext, hread⟩ := readString_quoteOnto key rest
  rw [htext]
  change (lexed (readString [] text) >>= fun read => .ok (some read.1, read.2)) = _
  rw [hread]
  rfl

theorem nextKey_first (key : String) (rest : List Char) :
    nextKey true (quoteOnto key rest) = .ok (some key, rest) := by
  have hkey := key_quoteOnto key rest
  obtain ⟨text, htext, -⟩ := readString_quoteOnto key rest
  rw [htext] at hkey ⊢
  rw [nextKey, skipBlanks_cons (by decide)]
  exact hkey

theorem nextKey_comma_spaced {blanks : List Char} (h : ∀ c ∈ blanks, isBlank c = true)
    (key : String) (rest : List Char) :
    nextKey false (',' :: (blanks ++ quoteOnto key rest)) = .ok (some key, rest) := by
  have hkey := key_quoteOnto key rest
  obtain ⟨text, htext, -⟩ := readString_quoteOnto key rest
  rw [htext] at hkey ⊢
  rw [nextKey, skipBlanks_cons (by decide)]
  dsimp only
  rw [if_neg (by decide), if_neg Bool.false_ne_true, if_pos rfl, skipBlanks_append h,
    skipBlanks_cons (by decide)]
  exact hkey

theorem nextKey_comma (key : String) (rest : List Char) :
    nextKey false (',' :: quoteOnto key rest) = .ok (some key, rest) :=
  nextKey_comma_spaced (List.forall_mem_nil _) key rest

theorem members_close_spaced {blanks : List Char} (h : ∀ c ∈ blanks, isBlank c = true)
    (fuel : Nat) (first : Bool) (slots : σ) (rest : List Char) :
    members field (fuel + 1) first slots (blanks ++ '\x7d' :: rest) = .ok (slots, rest) := by
  rw [members, nextKey_skip h, nextKey_close]
  rfl

theorem members_close (fuel : Nat) (first : Bool) (slots : σ) (rest : List Char) :
    members field (fuel + 1) first slots ('\x7d' :: rest) = .ok (slots, rest) :=
  members_close_spaced (List.forall_mem_nil _) fuel first slots rest

/-- One field is read, and the loop goes on behind it. -/
theorem members_step {first : Bool} {text text' : List Char} {key : String}
    (h : nextKey first text = .ok (some key, text')) (fuel : Nat) (slots : σ) :
    members field (fuel + 1) first slots text =
      field slots key text' >>= fun (slots, rest) => members field fuel false slots rest := by
  rw [members, h]
  rfl

/-- The reader of a field agrees with the step of the document on each of these fields. -/
def FieldsAgree (field : σ → String → List Char → Except ReadError (σ × List Char))
    (take : σ → String × Document → Except ShapeError σ) (fields : Fields) : Prop :=
  ∀ entry ∈ fields, ∀ slots rest, EndsNumber rest →
    Agrees rest (field slots entry.1 (':' :: compactOnto entry.2 rest)) (take slots entry)

/-- The fields after the first agree with those of the document. -/
theorem agrees_members {fields : Fields} (h : FieldsAgree field take fields) (rest : List Char)
    (slots : σ) {fuel : Nat} (hfuel : fields.length < fuel) :
    Agrees rest (members field fuel false slots (compactFieldsOnto fields ('\x7d' :: rest)))
      (fields.foldlM take slots) := by
  induction fields generalizing slots fuel with
  | nil =>
      obtain ⟨less, rfl⟩ := Nat.exists_eq_add_one.mpr hfuel
      rw [compactFieldsOnto, members_close]
      exact .value slots
  | cons entry fields ih =>
      obtain ⟨key, value⟩ := entry
      obtain ⟨hentry, hfields⟩ := List.forall_mem_cons.mp h
      obtain ⟨less, rfl⟩ : ∃ less, fuel = less + 1 := Nat.exists_eq_add_one.mpr (by omega)
      rw [compactFieldsOnto, members_step (nextKey_comma key _), List.foldlM_cons]
      apply (hentry slots _ (endsNumber_compactFieldsOnto fields rest)).bind
      intro slots
      exact ih hfields slots (by simpa using hfuel)

/-- The fields of an object agree with those of the document. -/
theorem agrees_object {fields : Fields} (h : FieldsAgree field take fields) (rest : List Char)
    (slots : σ) :
    Agrees rest
      (members field ((fieldsOnto fields rest).length + 1) true slots (fieldsOnto fields rest))
      (fields.foldlM take slots) := by
  cases fields with
  | nil =>
      rw [fieldsOnto, members_close]
      exact .value slots
  | cons entry fields =>
      obtain ⟨key, value⟩ := entry
      obtain ⟨hentry, hfields⟩ := List.forall_mem_cons.mp h
      have hfuel := length_le_fieldsOnto ((key, value) :: fields) rest
      rw [List.length_cons] at hfuel
      rw [fieldsOnto, members_step (nextKey_first key _), List.foldlM_cons]
      apply (hentry slots _ (endsNumber_compactFieldsOnto fields rest)).bind
      intro slots
      exact agrees_members hfields rest slots hfuel

/-- An object that is completed from the values of its fields agrees where they do. -/
theorem agrees_completed {reader : List Char → Except ReadError (α × List Char)} {initial : σ}
    {finish : σ → Except ShapeError α} {fields : Fields}
    (h : ∃ field,
      (∀ text, reader ('\x7b' :: text) = do
        let (slots, rest) ← members field (text.length + 1) true initial text
        .ok (← TextReader.shaped (finish slots), rest)) ∧
      FieldsAgree field take fields)
    (rest : List Char) :
    Agrees rest (reader ('\x7b' :: fieldsOnto fields rest))
      (do finish (← fields.foldlM take initial)) := by
  obtain ⟨field, hreader, hfields⟩ := h
  rw [hreader]
  apply (agrees_object hfields rest initial).bind
  intro slots
  exact .shaped rest (finish slots)

/-- An unknown field leaves the values read so far. -/
theorem agrees_ignored {value : Document} (h : value.Legible NumberReads) (slots : σ)
    {rest : List Char} (hrest : EndsNumber rest) :
    Agrees rest (ignored slots (':' :: compactOnto value rest)) (.ok slots) := by
  rw [ignored, colon, skipBlanks_cons (by decide)]
  change Agrees rest (skipValue (compactOnto value rest) >>= fun rest => .ok (slots, rest)) _
  rw [skipValue_compactOnto h hrest]
  exact .value slots

/-- Taking the value of a field that has perhaps been given before. -/
def takeMember (given : Bool) (name : String) (value : Except ShapeError α) (put : α → σ) :
    Except ShapeError σ :=
  if given then .error (.duplicateField name) else put <$> value

/-- A field is taken, and the fields behind it are taken after it. -/
theorem takeMember_bind {given : Bool} {name : String} {value : Except ShapeError α}
    {put : α → σ} {step : σ → String × Document → Except ShapeError σ} {fields : Fields}
    {after : α → Except ShapeError σ} (h : ∀ x, after x = fields.foldlM step (put x)) :
    (if given then .error (.duplicateField name) else value >>= after) =
      takeMember given name value put >>= fun slots => fields.foldlM step slots := by
  cases given with
  | true => rfl
  | false =>
      cases value with
      | error e => rfl
      | ok x => exact h x

theorem exists_of_takeMember_eq_ok {given : Bool} {name : String} {value : Except ShapeError α}
    {put : α → σ} {slots : σ} (h : takeMember given name value put = .ok slots) :
    ∃ x, value = .ok x := by
  cases given with
  | true => cases h
  | false => exact exists_of_map_eq_ok h

theorem agrees_member {reader : List Char → Except ReadError (α × List Char)} {value : Document}
    {expected : Except ShapeError α} (h : ReadsLike reader value expected) (given : Bool)
    (name : String) (put : α → σ) {rest : List Char} (hrest : EndsNumber rest) :
    Agrees rest (member given name reader put (':' :: compactOnto value rest))
      (takeMember given name expected put) := by
  cases given with
  | true => exact .failure _ _
  | false =>
      rw [member, colon, skipBlanks_cons (by decide)]
      exact (h rest hrest).map put

end Objects

section Brackets

/-- A document without brackets. -/
def Document.IsScalar : Document → Prop
  | .array _ | .object _ => False
  | _ => True

/-- A reader of objects and arrays agrees where it does behind either bracket. -/
theorem readsLike_brackets {document : Document} (hlegible : document.Legible NumberReads)
    {reader : List Char → Except ReadError (α × List Char)} {expected : Except ShapeError α}
    (hobject : ∀ fields, document = .object fields → ∀ rest,
      Agrees rest (reader ('\x7b' :: fieldsOnto fields rest)) expected)
    (harray : ∀ items, document = .array items → ∀ rest,
      Agrees rest (reader ('[' :: itemsOnto items rest)) expected)
    (hscalar : document.IsScalar → ∃ e, expected = .error e)
    (hother : ∀ c text, isBlank c = false → c ≠ '\x7b' → c ≠ '[' →
      ∃ e, reader (c :: text) = .error e) :
    ReadsLike reader document expected := by
  cases document with
  | object fields =>
      intro rest _
      rw [compactOnto_object]
      exact hobject fields rfl rest
  | array items =>
      intro rest _
      rw [compactOnto_array]
      exact harray items rfl rest
  | _ =>
      obtain ⟨e, rfl⟩ := hscalar trivial
      apply ReadsLike.of_error hlegible
      intro c text hblank hopens
      apply hother c text hblank
      · rintro rfl
        simp [Opens] at hopens
      · rintro rfl
        simp [Opens] at hopens

/-- A list in a document, which must be an array. -/
def listOf (take : Document → Except ShapeError α) : Document → Except ShapeError (List α)
  | .array items => items.mapM take
  | d => .error (.invalidType d.found "a sequence")

/-- A reader of arrays agrees where the reader of their elements does. -/
theorem readsLike_listOf {document : Document} (hlegible : document.Legible NumberReads)
    {reader : List Char → Except ReadError (List α × List Char)}
    {take : Document → Except ShapeError α}
    (harray : ∀ items, document = .array items → ∃ element,
      (∀ text, reader ('[' :: text) = elements element (text.length + 1) true [] text) ∧
      ∀ item ∈ items, ReadsLike element item (take item))
    (hother : ∀ c text, isBlank c = false → c ≠ '[' → ∃ e, reader (c :: text) = .error e) :
    ReadsLike reader document (listOf take document) := by
  apply readsLike_brackets hlegible
  · rintro fields rfl rest
    obtain ⟨e, herror⟩ := hother '\x7b' (fieldsOnto fields rest) (by decide) (by decide)
    rw [herror]
    exact .failure e _
  · rintro items rfl rest
    obtain ⟨element, hreader, hitems⟩ := harray items rfl
    rw [hreader]
    exact agrees_array hlegible.of_mem_items hitems rest
  · intro hscalar
    cases document with
    | array items => cases hscalar
    | _ => exact ⟨_, rfl⟩
  · exact fun c text hblank _ harray => hother c text hblank harray

end Brackets

namespace Document

theorem depth_lt_of_mem_items {item : Document} {items : List Document} (h : item ∈ items) :
    item.depth < (Document.array items).depth := by
  have hle : item.depth ≤ depthOfItems items := by
    induction items with
    | nil => cases h
    | cons first items ih =>
        rw [depthOfItems]
        rcases List.mem_cons.mp h with rfl | h
        · exact Nat.le_max_left _ _
        · exact Nat.le_trans (ih h) (Nat.le_max_right _ _)
  rw [depth]
  exact Nat.lt_succ_of_le hle

theorem depth_lt_of_mem_fields {name : String} {value : Document} {fields : Fields}
    (h : (name, value) ∈ fields) : value.depth < (Document.object fields).depth := by
  have hle : value.depth ≤ depthOfFields fields := by
    induction fields with
    | nil => cases h
    | cons first fields ih =>
        rw [depthOfFields]
        rcases List.mem_cons.mp h with rfl | h
        · exact Nat.le_max_left _ _
        · exact Nat.le_trans (ih h) (Nat.le_max_right _ _)
  rw [depth]
  exact Nat.lt_succ_of_le hle

end Document

end AggQuery
