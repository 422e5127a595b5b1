import AggQuery.Proofs.Document.Strings
import AggQuery.Proofs.Reading.Agreement
import AggQuery.Proofs.Yaml.FlowTokens
import AggQuery.Proofs.Yaml.Numbers

/-!
# Tokens of document text

The compact text of a document whose keys are short words is divided into the tokens of the
document with each of its strings as it is read between double quotes; where a string cannot
be read, the text has no tokens (`tokenize_compact`).

## Implementation notes

`Tokenizes` states this for a document in front of any text that ends an item, and is closed
under the constructors of documents. The first step, which opens the object, is the only one
outside all collections, so it is run by itself.
-/

namespace AggQuery.Yaml

open Document Tokenizer

/-- The tokens of a key, in front of others. -/
def keyTokensOnto (key : String) (rest : List Token) : List Token :=
  .key :: .scalar false key.toList :: .value :: rest

mutual

/-- The tokens of a document, in front of others. -/
def tokensOnto (document : Document) (rest : List Token) : List Token :=
  match document with
  | .null => .scalar true nullText :: rest
  | .boolean b => .scalar true (booleanText b) :: rest
  | .number n => .scalar true (numberText n) :: rest
  | .string s => .scalar false s.toList :: rest
  | .array [] => .flowSequenceStart :: .flowSequenceEnd :: rest
  | .array (item :: items) =>
    .flowSequenceStart :: tokensOnto item (itemTokensOnto items (.flowSequenceEnd :: rest))
  | .object [] => .flowMappingStart :: .flowMappingEnd :: rest
  | .object ((key, value) :: fields) =>
    .flowMappingStart :: keyTokensOnto key
      (tokensOnto value (fieldTokensOnto fields (.flowMappingEnd :: rest)))

/-- The tokens of the items after the first, each behind a comma. -/
def itemTokensOnto (items : List Document) (rest : List Token) : List Token :=
  match items with
  | [] => rest
  | item :: items => .flowEntry :: tokensOnto item (itemTokensOnto items rest)

/-- The tokens of the fields after the first, each behind a comma. -/
def fieldTokensOnto (fields : Fields) (rest : List Token) : List Token :=
  match fields with
  | [] => rest
  | (key, value) :: fields =>
    .flowEntry :: keyTokensOnto key (tokensOnto value (fieldTokensOnto fields rest))

end

/-- A string as it is read between double quotes; `none` if it cannot be read. -/
def refold (s : String) : Option String := (folded? s.toList).map String.ofList

/-- The tokens of the text of a document, with its strings as they are read. -/
def Tokenizes (document : Document) : Prop :=
  ∀ {bound depth : Nat} {t : Tokenizer} {c : Char} {rest : List Char},
    Settled bound (depth + 1) t → isFlowEnd c = true →
      t.cursor.rest = compactOnto document (c :: rest) →
        Lands bound (depth + 1) t (c :: rest) ((document.mapStrings? refold).map tokensOnto)

theorem plain_nullText : ∀ c ∈ nullText, isPlainChar c = true := List.all_eq_true.mp rfl

theorem plain_booleanText (b : Bool) : ∀ c ∈ booleanText b, isPlainChar c = true := by
  cases b <;> exact List.all_eq_true.mp rfl

theorem tokenizes_null : Tokenizes .null := by
  intro bound depth t c rest h hc hrest
  exact step_plain h plain_nullText (by decide) hc hrest

theorem tokenizes_boolean (b : Bool) : Tokenizes (.boolean b) := by
  intro bound depth t c rest h hc hrest
  exact step_plain h (plain_booleanText b) (by cases b <;> decide) hc hrest

theorem isPlainChar_of_isNumberChar {c : Char} (h : Lexeme.isNumberChar c = true) :
    isPlainChar c = true := by
  simp only [Lexeme.isNumberChar, Bool.or_eq_true, decide_eq_true_eq] at h
  rcases h with (((hdigit | rfl) | rfl) | rfl) | rfl
  · simp [isPlainChar, Char.isAlphanum, hdigit]
  all_goals decide

theorem tokenizes_number {n : Number} (hn : n.Fits) : Tokenizes (.number n) := by
  intro bound depth t c rest h hc hrest
  obtain ⟨first, more, htext, -⟩ := Lexeme.exists_numberText_head hn
  exact step_plain h (fun d hd => isPlainChar_of_isNumberChar (numberText_chars hn d hd))
    (by simp [htext]) hc hrest

theorem tokenizes_string (s : String) : Tokenizes (.string s) := by
  intro bound depth t c rest h hc hrest
  have hstep := step_string h s hrest
  have htokens (text : List Char) :
      tokensOnto (.string (String.ofList text)) = (.scalar false text :: ·) := by
    funext more
    rw [tokensOnto, String.toList_ofList]
  rw [mapStrings?, refold, Option.map_map, Option.map_map]
  simpa only [Function.comp_def, htokens] using hstep

/-- Behind an item or a field stands a comma or the closing bracket. -/
theorem exists_flowEnd_items (items : List Document) (rest : List Char) :
    ∃ c more, compactItemsOnto items (']' :: rest) = c :: more ∧ isFlowEnd c = true := by
  cases items with
  | nil => exact ⟨']', rest, rfl, rfl⟩
  | cons item items => exact ⟨',', _, rfl, rfl⟩

theorem exists_flowEnd_fields (fields : Fields) (rest : List Char) :
    ∃ c more, compactFieldsOnto fields ('\x7d' :: rest) = c :: more ∧ isFlowEnd c = true := by
  cases fields with
  | nil => exact ⟨'\x7d', rest, rfl, rfl⟩
  | cons entry fields => exact ⟨',', _, rfl, rfl⟩

section Collections

variable {bound depth : Nat} {t : Tokenizer} {rest : List Char}

/-- The items after the first, up to the closing bracket. -/
theorem lands_items {items : List Document} (hitems : ∀ item ∈ items, Tokenizes item)
    (h : Settled bound (depth + 2) t)
    (hrest : t.cursor.rest = compactItemsOnto items (']' :: rest)) :
    Lands bound (depth + 1) t rest ((mapItems? refold items).map fun items more =>
      itemTokensOnto items (.flowSequenceEnd :: more)) := by
  induction items generalizing t with
  | nil => exact step_close h (.inl ⟨rfl, rfl⟩) hrest
  | cons item items ih =>
      obtain ⟨hitem, hitems⟩ := List.forall_mem_cons.mp hitems
      obtain ⟨c, more, hmore, hc⟩ := exists_flowEnd_items items rest
      obtain ⟨t₁, hcomma, -⟩ := step_comma h hrest
      have hbehind : t₁.cursor.rest = compactOnto item (c :: more) := by
        rw [hcomma.rest_eq, hmore]
      rw [mapItems?_cons]
      exact (hcomma.lands (hitem hcomma.settled hc hbehind)).both
        (fun t₂ h₂ hrest₂ => ih hitems h₂ (hrest₂.trans hmore.symm)) fun _ _ => rfl

theorem tokenizes_array {items : List Document} (hitems : ∀ item ∈ items, Tokenizes item) :
    Tokenizes (.array items) := by
  intro bound depth t c rest h hc hrest
  rw [compactOnto_array] at hrest
  obtain ⟨t₁, hopen, -⟩ := step_open h (.inl ⟨rfl, rfl⟩) hrest
  cases items with
  | nil =>
      obtain ⟨t₂, hclose⟩ := step_close hopen.settled (.inl ⟨rfl, rfl⟩) hopen.rest_eq
      exact ⟨t₂, hopen.trans hclose⟩
  | cons item items =>
      obtain ⟨hitem, hitems⟩ := List.forall_mem_cons.mp hitems
      obtain ⟨d, more, hmore, hd⟩ := exists_flowEnd_items items (c :: rest)
      have hbehind : t₁.cursor.rest = compactOnto item (d :: more) := by
        rw [hopen.rest_eq, itemsOnto, hmore]
      rw [mapStrings?, mapItems?_cons, Option.map_map]
      exact (hopen.lands (hitem hopen.settled hd hbehind)).both
        (fun t₂ h₂ hrest₂ => lands_items hitems h₂ (hrest₂.trans hmore.symm)) fun _ _ => rfl

/-- One field, from its key on. -/
theorem lands_field {key : String} (hkey : IsWord key) {value : Document}
    (hvalue : Tokenizes value) (h : Settled bound (depth + 1) t) (hallowed : t.keyAllowed = true)
    {c : Char} (hc : isFlowEnd c = true)
    (hrest : t.cursor.rest = quoteOnto key (':' :: compactOnto value (c :: rest))) :
    Lands bound (depth + 1) t (c :: rest) ((value.mapStrings? refold).map fun value more =>
      keyTokensOnto key (tokensOnto value more)) := by
  obtain ⟨t₁, hstep⟩ := step_key h hallowed hkey hrest
  exact hstep.lands (hvalue hstep.settled hc hstep.rest_eq)

/-- The fields after the first, up to the closing bracket. -/
theorem lands_fields {fields : Fields} (hkeys : ∀ entry ∈ fields, IsWord entry.1)
    (hvalues : ∀ entry ∈ fields, Tokenizes entry.2) (h : Settled bound (depth + 1) t)
    (hrest : t.cursor.rest = compactFieldsOnto fields ('\x7d' :: rest)) :
    Lands bound depth t rest ((mapFields? refold fields).map fun fields more =>
      fieldTokensOnto fields (.flowMappingEnd :: more)) := by
  induction fields generalizing t with
  | nil => exact step_close h (.inr ⟨rfl, rfl⟩) hrest
  | cons entry fields ih =>
      obtain ⟨key, value⟩ := entry
      obtain ⟨hkey, hkeys⟩ := List.forall_mem_cons.mp hkeys
      obtain ⟨hvalue, hvalues⟩ := List.forall_mem_cons.mp hvalues
      obtain ⟨c, more, hmore, hc⟩ := exists_flowEnd_fields fields rest
      obtain ⟨t₁, hcomma, hallowed⟩ := step_comma h hrest
      have hbehind : t₁.cursor.rest = quoteOnto key (':' :: compactOnto value (c :: more)) := by
        rw [hcomma.rest_eq, hmore]
      rw [mapFields?_cons]
      exact (hcomma.lands (lands_field hkey hvalue hcomma.settled hallowed hc hbehind)).both
        (fun t₂ h₂ hrest₂ => ih hkeys hvalues h₂ (hrest₂.trans hmore.symm)) fun _ _ => rfl

/-- The tokens of the fields of an object, up to its closing bracket. -/
def bodyTokensOnto (fields : Fields) (rest : List Token) : List Token :=
  match fields with
  | [] => .flowMappingEnd :: rest
  | (key, value) :: fields =>
    keyTokensOnto key (tokensOnto value (fieldTokensOnto fields (.flowMappingEnd :: rest)))

theorem tokensOnto_object (fields : Fields) (rest : List Token) :
    tokensOnto (.object fields) rest = .flowMappingStart :: bodyTokensOnto fields rest := by
  cases fields <;> rfl

/-- All fields, from behind the opening bracket on. -/
theorem lands_body {fields : Fields} (hkeys : ∀ entry ∈ fields, IsWord entry.1)
    (hvalues : ∀ entry ∈ fields, Tokenizes entry.2) (h : Settled bound (depth + 1) t)
    (hallowed : t.keyAllowed = true) (hrest : t.cursor.rest = fieldsOnto fields rest) :
    Lands bound depth t rest ((mapFields? refold fields).map bodyTokensOnto) := by
  cases fields with
  | nil => exact step_close h (.inr ⟨rfl, rfl⟩) hrest
  | cons entry fields =>
      obtain ⟨key, value⟩ := entry
      obtain ⟨hkey, hkeys⟩ := List.forall_mem_cons.mp hkeys
      obtain ⟨hvalue, hvalues⟩ := List.forall_mem_cons.mp hvalues
      obtain ⟨c, more, hmore, hc⟩ := exists_flowEnd_fields fields rest
      have hbehind : t.cursor.rest = quoteOnto key (':' :: compactOnto value (c :: more)) := by
        rw [hrest, fieldsOnto, hmore]
      rw [mapFields?_cons]
      exact (lands_field hkey hvalue h hallowed hc hbehind).both
        (fun t₂ h₂ hrest₂ => lands_fields hkeys hvalues h₂ (hrest₂.trans hmore.symm)) fun _ _ => rfl

end Collections

theorem tokenizes_object {fields : Fields} (hkeys : ∀ entry ∈ fields, IsWord entry.1)
    (hvalues : ∀ entry ∈ fields, Tokenizes entry.2) : Tokenizes (.object fields) := by
  intro bound depth t c rest h hc hrest
  rw [compactOnto_object] at hrest
  obtain ⟨t₁, hopen, hallowed⟩ := step_open h (.inr ⟨rfl, rfl⟩) hrest
  have htokens (fields : Fields) : tokensOnto (.object fields) =
      (.flowMappingStart :: ·) ∘ bodyTokensOnto fields := funext (tokensOnto_object fields)
  have hall := hopen.lands (lands_body hkeys hvalues hopen.settled hallowed hopen.rest_eq)
  rw [mapStrings?, Option.map_map]
  simpa only [Function.comp_def, htokens] using hall

/-- All keys of the tree are short words. -/
inductive WordKeys : Document → Prop
  | null : WordKeys .null
  | boolean (b : Bool) : WordKeys (.boolean b)
  | number (n : Number) : WordKeys (.number n)
  | string (s : String) : WordKeys (.string s)
  | array {items : List Document} (h : ∀ item ∈ items, WordKeys item) : WordKeys (.array items)
  | object {fields : Fields} (hkeys : ∀ entry ∈ fields, IsWord entry.1)
      (h : ∀ entry ∈ fields, WordKeys entry.2) : WordKeys (.object fields)

namespace WordKeys

theorem nil : WordKeys (.object []) := .object (by simp) (by simp)

theorem cons {key : String} {value : Document} {fields : Fields} (hkey : IsWord key)
    (hvalue : WordKeys value) (hfields : WordKeys (.object fields)) :
    WordKeys (.object ((key, value) :: fields)) := by
  cases hfields with
  | object hkeys hvalues =>
      exact .object (List.forall_mem_cons.mpr ⟨hkey, hkeys⟩)
        (List.forall_mem_cons.mpr ⟨hvalue, hvalues⟩)

theorem array_map {α : Type} {write : α → Document} (xs : List α)
    (h : ∀ x, WordKeys (write x)) : WordKeys (.array (xs.map write)) := by
  apply WordKeys.array
  intro item hmem
  obtain ⟨x, -, rfl⟩ := List.mem_map.mp hmem
  exact h x

theorem tokenizes {document : Document} (hkeys : WordKeys document)
    (hlegible : document.Legible Number.Fits) : Tokenizes document := by
  induction hkeys with
  | null => exact tokenizes_null
  | boolean b => exact tokenizes_boolean b
  | number n => exact tokenizes_number ((legible_number n).mp hlegible)
  | string s => exact tokenizes_string s
  | array _ ih =>
      exact tokenizes_array fun item hmem => ih item hmem (hlegible.of_mem_items item hmem)
  | object hkeys _ ih =>
      exact tokenizes_object hkeys fun entry hmem => ih entry hmem (hlegible.of_mem hmem)

end WordKeys

section Whole

variable {bound depth : Nat}

/-- The state at the start of a text. -/
def atStart (text : List Char) : Tokenizer := { cursor := { rest := text } }

/-- The state behind an opening brace at the start of a text. -/
def behindBrace (text : List Char) : Tokenizer where
  cursor := { rest := text, index := 1, column := 1 }
  tokens := [.flowMappingStart]
  count := 1
  suspended := [some (atStart ('\x7b' :: text)).keyHere]

theorem run_atStart (hbound : 0 < bound) (fuel : Nat) (text : List Char) :
    run bound (fuel + 1) (atStart ('\x7b' :: text)) = run bound fuel (behindBrace text) := by
  have hgap : (atStart ('\x7b' :: text)).skipGap bound = some (atStart ('\x7b' :: text)) :=
    skipGap_eq hbound rfl (by decide)
  rw [run, hgap]
  rfl

theorem settled_behindBrace {text : List Char} (hbound : text.length + 1 < bound) :
    Settled bound 1 (behindBrace text) where
  depth_eq := rfl
  count_eq := rfl
  column_pos := Nat.one_pos
  indent_eq := rfl
  outer_eq := rfl
  possible_loose := nofun
  suspended_loose key hkey := by
    obtain rfl := List.mem_singleton.mp hkey
    rintro k ⟨⟩
    rfl
  bound_gt := hbound

/-- Outside all collections the end of the text ends the tokens. -/
theorem run_atEnd {t : Tokenizer} (h : Settled bound 0 t) (hrest : t.cursor.rest = [])
    (fuel : Nat) : run bound (fuel + 1) t = some t.tokens.reverse := by
  have hgap : t.skipGap bound = some t := by
    obtain ⟨bound, rfl⟩ := Nat.exists_eq_add_one.mpr (Nat.zero_lt_of_lt h.bound_gt)
    have hskip (p : Char → Bool) : t.cursor.skipWhile p = t.cursor := by
      rw [Cursor.skipWhile, hrest]
      rfl
    simp [skipGap, hrest, hskip, Cursor.takeBreak, moveTo]
  have hs := settled_refreshed h
  have hend : t.refreshed.cursor.rest = [] := hrest
  have htokens : t.refreshed.tokens = t.tokens := rfl
  rw [run, hgap]
  simp [refreshKeys_eq h, closeBlocks_eq hs, hend, finish, hs.dropKey_eq, htokens]

/-- A run through the text behind an opening brace, up to its end. -/
theorem run_behindBrace {text : List Char} {emitted : Option (List Token → List Token)}
    (h : Lands bound 0 (behindBrace text) [] emitted) {fuel : Nat} (hfuel : text.length < fuel) :
    run bound fuel (behindBrace text) =
      emitted.map fun emitted => .flowMappingStart :: emitted [] := by
  have hlength : (behindBrace text).cursor.rest.length = text.length := rfl
  cases emitted with
  | none =>
      obtain ⟨steps, hsteps, hrun⟩ := h
      obtain ⟨more, rfl⟩ : ∃ more, fuel = more + steps := ⟨fuel - steps, by omega⟩
      exact hrun more
  | some emitted =>
      obtain ⟨t, harrives⟩ := h
      obtain ⟨steps, hsteps, hrun⟩ := harrives.run_eq
      have hemits : t.tokens.reverse = .flowMappingStart :: emitted [] := by
        simpa [behindBrace] using harrives.emits []
      obtain ⟨more, rfl⟩ : ∃ more, fuel = more + 1 + steps := ⟨fuel - steps - 1, by omega⟩
      rw [hrun, run_atEnd harrives.settled harrives.rest_eq, hemits]
      rfl

/-- The tokens of the text of an object, with its strings as they are read. -/
theorem tokenize_compact {fields : Fields} (hkeys : WordKeys (.object fields))
    (hlegible : (Document.object fields).Legible Number.Fits) :
    tokenize (Document.object fields).compact =
      if (compactOnto (.object fields) []).all isReadable then
        ((Document.object fields).mapStrings? refold).map (tokensOnto · [])
      else none := by
  obtain ⟨hwords, hvalues⟩ : (∀ entry ∈ fields, IsWord entry.1) ∧
      ∀ entry ∈ fields, Tokenizes entry.2 := by
    cases hkeys with
    | object hwords hvalues =>
        exact ⟨hwords, fun entry hmem => (hvalues entry hmem).tokenizes (hlegible.of_mem hmem)⟩
  rw [compactOnto_object, tokenize, compact, String.toList_ofList, compactOnto_object]
  dsimp only
  generalize hbody : fieldsOnto fields [] = body
  generalize hbound : 2 * ('\x7b' :: body).length + 16 = bound
  rw [List.length_cons] at hbound
  have hlands := lands_body hwords hvalues (@settled_behindBrace bound body (by omega)) rfl
    hbody.symm
  have hrun : run bound bound (atStart ('\x7b' :: body)) =
      ((Document.object fields).mapStrings? refold).map (tokensOnto · []) := by
    obtain ⟨fuel, rfl⟩ := Nat.exists_eq_add_one.mpr (show 0 < bound by omega)
    rw [run_atStart (by omega), run_behindBrace hlands (by omega), mapStrings?]
    simp [Function.comp_def, tokensOnto_object]
  rw [← hrun]
  rfl

end Whole

end AggQuery.Yaml
