import AggQuery.Proofs.Document.Reading
import AggQuery.Proofs.Reading.Collections
import AggQuery.Reading.LimitedDocument

/-!
# The nesting limit of document text

A document whose text is written with any blanks is read back from it exactly if it nests no
deeper than the limit; a deeper one is refused (`ofText_compact`, `ofText_pretty`). What the
reader gives is thus a function of one number, the depth.

## Implementation notes

`upTo` is the outcome that depends on a depth alone. Parts that are read one after the other
have the greater of their depths, and an object or array one level more than its parts.
-/

namespace AggQuery

open Lexeme Document TextReader

variable {α β : Type}

/-- A value and the text behind it, if the value nests at most `budget` levels. -/
def upTo (budget depth : Nat) (x : α) (rest : List Char) : Except ReadError (α × List Char) :=
  if depth ≤ budget then .ok (x, rest) else malformed

section Outcomes

variable {budget depth other : Nat} {x : α} {z : β} {rest after : List Char}

theorem upTo_of_le (h : depth ≤ budget) (x : α) (rest : List Char) :
    upTo budget depth x rest = .ok (x, rest) :=
  if_pos h

theorem upTo_of_not_le (h : ¬depth ≤ budget) (x : α) (rest : List Char) :
    upTo budget depth x rest = malformed :=
  if_neg h

theorem upTo_map (f : α → β) :
    ((upTo budget depth x rest).map fun (x, text) => (f x, text)) =
      upTo budget depth (f x) rest := by
  by_cases h : depth ≤ budget
  · rw [upTo_of_le h, upTo_of_le h]
    rfl
  · rw [upTo_of_not_le h, upTo_of_not_le h]
    rfl

/-- Two parts read one after the other nest as deep as the deeper one. -/
theorem upTo_bind {next : α × List Char → Except ReadError (β × List Char)}
    (h : next (x, rest) = upTo budget other z after) :
    upTo budget depth x rest >>= next = upTo budget (max depth other) z after := by
  by_cases hdepth : depth ≤ budget
  · have hiff : max depth other ≤ budget ↔ other ≤ budget := by omega
    rw [upTo_of_le hdepth]
    change next (x, rest) = _
    rw [h, upTo, upTo]
    simp only [hiff]
  · rw [upTo_of_not_le hdepth, upTo_of_not_le (by omega)]
    rfl

/-- One more level takes one more level of the budget. -/
theorem upTo_succ : upTo (budget + 1) (depth + 1) x rest = upTo budget depth x rest := by
  simp only [upTo, Nat.add_le_add_iff_right]

end Outcomes

namespace Document

/-- The document is read from its text with any blanks, in front of any text that does not
continue a number, exactly if it nests at most as deep as the budget. -/
def ReadsUpTo (document : Document) : Prop :=
  ∀ (budget : Nat) (spacing : Spacing) (level : Nat) (rest : List Char), EndsNumber rest →
    startOfText budget (spacedOnto spacing document level rest) =
      upTo budget document.depth document rest

theorem startOfText_skip {blanks : List Char} (h : ∀ c ∈ blanks, isBlank c = true)
    (budget : Nat) (text : List Char) :
    startOfText budget (blanks ++ text) = startOfText budget text := by
  rw [startOfText.eq_def, startOfText.eq_def budget text, skipBlanks_append h]

theorem startOfText_bracket (budget : Nat) (text : List Char) :
    startOfText (budget + 1) ('[' :: text) =
      (elements (startOfText budget) (text.length + 1) true [] text).map
        fun (items, rest) => (.array items, rest) := rfl

theorem startOfText_brace (budget : Nat) (text : List Char) :
    startOfText (budget + 1) ('\x7b' :: text) =
      (members (fieldOfText (startOfText budget)) (text.length + 1) true [] text).map
        fun (fields, rest) => (.object fields, rest) := rfl

section Scalars

theorem startOfText_scalar {c : Char} (hblank : isBlank c = false) (harray : c ≠ '[')
    (hobject : c ≠ '\x7b') (budget : Nat) (text : List Char) :
    startOfText budget (c :: text) = scalarOfText (c :: text) := by
  rw [startOfText.eq_def, skipBlanks_cons hblank]
  split
  · next heq => exact absurd (List.cons.inj heq).1 harray
  · next heq => exact absurd (List.cons.inj heq).1 hobject
  · rfl

/-- A scalar is read whatever the budget. -/
theorem readsUpTo_scalar {document : Document} (hdepth : document.depth = 0)
    (h : ∀ (spacing : Spacing) (level : Nat) (rest : List Char), EndsNumber rest →
      ∃ c text, spacedOnto spacing document level rest = c :: text ∧ isBlank c = false ∧
        c ≠ '[' ∧ c ≠ '\x7b' ∧ scalarOfText (c :: text) = .ok (document, rest)) :
    ReadsUpTo document := by
  intro budget spacing level rest hrest
  obtain ⟨c, text, htext, hblank, harray, hobject, hread⟩ := h spacing level rest hrest
  rw [htext, startOfText_scalar hblank harray hobject, hread, hdepth,
    upTo_of_le (Nat.zero_le budget)]

theorem readsUpTo_null : ReadsUpTo .null :=
  readsUpTo_scalar rfl fun _ _ _ _ =>
    ⟨'n', _, rfl, by decide, by decide, by decide, rfl⟩

theorem readsUpTo_boolean (b : Bool) : ReadsUpTo (.boolean b) := by
  cases b
  · exact readsUpTo_scalar rfl fun _ _ _ _ =>
      ⟨'f', _, rfl, by decide, by decide, by decide, rfl⟩
  · exact readsUpTo_scalar rfl fun _ _ _ _ =>
      ⟨'t', _, rfl, by decide, by decide, by decide, rfl⟩

theorem readsUpTo_string (s : String) : ReadsUpTo (.string s) := by
  apply readsUpTo_scalar rfl
  intro spacing level rest _
  obtain ⟨text, htext, hread⟩ := readString_quoteOnto s rest
  refine ⟨'"', text, htext, by decide, by decide, by decide, ?_⟩
  rw [scalarOfText, if_pos rfl, hread]
  rfl

theorem scalarOfText_number {c : Char} (h : c = '-' ∨ c.isDigit = true) (text : List Char) :
    scalarOfText (c :: text) =
      (lexed (readNumber (c :: text))).map fun (n, rest) => (.number n, rest) := by
  have hne (other : Char) (hsign : other ≠ '-') (hdigit : other.isDigit = false) : c ≠ other :=
    ne_of_numberStart h hsign hdigit
  rw [scalarOfText, if_neg (hne '"' (by decide) (by decide)),
    if_neg (hne 'n' (by decide) (by decide)), if_neg (hne 't' (by decide) (by decide)),
    if_neg (hne 'f' (by decide) (by decide)), if_pos h]

theorem readsUpTo_number {n : Number} (h : NumberReads n) : ReadsUpTo (.number n) := by
  apply readsUpTo_scalar rfl
  intro spacing level rest hrest
  obtain ⟨c, tail, htext, hc⟩ := h.head
  have hread := h rest hrest
  rw [htext, List.cons_append] at hread
  refine ⟨c, tail ++ rest, ?_, isBlank_of_numberStart hc,
    ne_of_numberStart hc (by decide) (by decide), ne_of_numberStart hc (by decide) (by decide), ?_⟩
  · rw [spacedOnto, htext, List.cons_append]
  · rw [scalarOfText_number hc, hread]
    rfl

end Scalars

section Lengths

/-- What stands between the brackets of an array has a character for each item. -/
theorem length_lt_spacedItems (spacing : Spacing) (item : Document) (items : List Document)
    (level : Nat) (rest : List Char) :
    items.length < (spacing.line (level + 1) ++ spacedOnto spacing item (level + 1)
      (spacedItemsOnto spacing items level (spacing.line level ++ ']' :: rest))).length := by
  have hitem := length_le_spacedOnto spacing item (level + 1)
    (spacedItemsOnto spacing items level (spacing.line level ++ ']' :: rest))
  have hitems := length_le_spacedItemsOnto spacing items level
    (spacing.line level ++ ']' :: rest)
  simp only [List.length_append, List.length_cons] at *
  omega

/-- What stands between the braces of an object has a character for each field. -/
theorem length_lt_spacedFields (spacing : Spacing) (key : String) (value : Document)
    (fields : Fields) (level : Nat) (rest : List Char) :
    fields.length < (spacing.line (level + 1) ++ quoteOnto key (':' ::
      (spacing.gap ++ spacedOnto spacing value (level + 1)
        (spacedFieldsOnto spacing fields level
          (spacing.line level ++ '\x7d' :: rest))))).length := by
  have hvalue := length_le_spacedOnto spacing value (level + 1)
    (spacedFieldsOnto spacing fields level (spacing.line level ++ '\x7d' :: rest))
  have hfields := length_le_spacedFieldsOnto spacing fields level
    (spacing.line level ++ '\x7d' :: rest)
  simp only [quoteOnto, List.length_append, List.length_cons] at *
  omega

end Lengths

/-- The items after the first are read exactly if none of them nests deeper than the budget. -/
theorem elements_upTo {items : List Document}
    (hlegible : ∀ item ∈ items, item.Legible NumberReads) (h : ∀ item ∈ items, ReadsUpTo item)
    (budget : Nat) (spacing : Spacing) (level : Nat) (rest : List Char) (acc : List Document)
    {fuel : Nat} (hfuel : items.length < fuel) :
    elements (startOfText budget) fuel false acc
        (spacedItemsOnto spacing items level (spacing.line level ++ ']' :: rest)) =
      upTo budget (depthOfItems items) (acc.reverse ++ items) rest := by
  induction items generalizing acc fuel with
  | nil =>
      obtain ⟨less, rfl⟩ := Nat.exists_eq_add_one.mpr hfuel
      rw [spacedItemsOnto, elements_close_spaced (spacing.line_blank level), depthOfItems,
        upTo_of_le (Nat.zero_le _), List.append_nil]
  | cons item items ih =>
      obtain ⟨hitemLegible, hitemsLegible⟩ := List.forall_mem_cons.mp hlegible
      obtain ⟨hitem, hitems⟩ := List.forall_mem_cons.mp h
      obtain ⟨less, rfl⟩ : ∃ less, fuel = less + 1 := Nat.exists_eq_add_one.mpr (by omega)
      have hrest := ih hitemsLegible hitems (item :: acc) (by simpa using hfuel)
      rw [List.reverse_cons, List.append_assoc, List.singleton_append] at hrest
      rw [spacedItemsOnto,
        elements_step (nextElement_comma_spaced hitemLegible (spacing.line_blank _) _ _ _),
        hitem _ _ _ _ (endsNumber_spacedItems spacing items level rest), depthOfItems]
      exact upTo_bind hrest

theorem readsUpTo_array {items : List Document}
    (hlegible : ∀ item ∈ items, item.Legible NumberReads)
    (h : ∀ item ∈ items, ReadsUpTo item) : ReadsUpTo (.array items) := by
  intro budget spacing level rest _
  cases budget with
  | zero =>
      rw [upTo_of_not_le (by rw [depth]; omega)]
      cases items <;> rfl
  | succ budget =>
      rw [depth, upTo_succ]
      cases items with
      | nil => rfl
      | cons item items =>
          obtain ⟨hitemLegible, hitemsLegible⟩ := List.forall_mem_cons.mp hlegible
          obtain ⟨hitem, hitems⟩ := List.forall_mem_cons.mp h
          have hfuel := length_lt_spacedItems spacing item items level rest
          rw [spacedOnto, startOfText_bracket,
            elements_step
              (nextElement_first_spaced hitemLegible (spacing.line_blank _) spacing _ _),
            hitem _ _ _ _ (endsNumber_spacedItems spacing items level rest),
            upTo_bind (elements_upTo hitemsLegible hitems budget spacing level rest [item] hfuel)]
          exact upTo_map Document.array

/-- A field is read exactly if its value is, and then stands behind the fields before it. -/
theorem fieldOfText_upTo {value : Document} (h : ReadsUpTo value) (budget : Nat)
    (spacing : Spacing) (level : Nat) {rest : List Char} (hrest : EndsNumber rest)
    (fields : Fields) (key : String) :
    fieldOfText (startOfText budget) fields key
        (':' :: (spacing.gap ++ spacedOnto spacing value level rest)) =
      upTo budget value.depth (fields.set key value) rest := by
  rw [fieldOfText, colon, skipBlanks_cons (by decide)]
  change (startOfText budget (spacing.gap ++ spacedOnto spacing value level rest) >>=
    fun read => .ok (fields.set key read.1, read.2)) = _
  rw [startOfText_skip spacing.gap_blank, h budget spacing level rest hrest]
  exact upTo_map fun x => fields.set key x

/-- The fields after the first are read exactly if no value of them nests deeper than the
budget. -/
theorem members_upTo {fields : Fields} (h : ∀ entry ∈ fields, ReadsUpTo entry.2) (budget : Nat)
    (spacing : Spacing) (level : Nat) (rest : List Char) (before : Fields)
    (hkeys : (before ++ fields).keys.Nodup) {fuel : Nat} (hfuel : fields.length < fuel) :
    members (fieldOfText (startOfText budget)) fuel false before
        (spacedFieldsOnto spacing fields level (spacing.line level ++ '\x7d' :: rest)) =
      upTo budget (depthOfFields fields) (before ++ fields) rest := by
  induction fields generalizing before fuel with
  | nil =>
      obtain ⟨less, rfl⟩ := Nat.exists_eq_add_one.mpr hfuel
      rw [spacedFieldsOnto, members_close_spaced (spacing.line_blank level), depthOfFields,
        upTo_of_le (Nat.zero_le _), List.append_nil]
  | cons entry fields ih =>
      obtain ⟨key, value⟩ := entry
      obtain ⟨hvalue, hfields⟩ := List.forall_mem_cons.mp h
      obtain ⟨less, rfl⟩ : ∃ less, fuel = less + 1 := Nat.exists_eq_add_one.mpr (by omega)
      have hset := Fields.set_of_notMem value (notMem_keys_of_nodup hkeys)
      have hrest := ih hfields (before ++ [(key, value)])
        (by rwa [List.append_assoc, List.singleton_append]) (by simpa using hfuel)
      rw [List.append_assoc, List.singleton_append, ← hset] at hrest
      rw [spacedFieldsOnto,
        members_step (nextKey_comma_spaced (spacing.line_blank _) key _),
        fieldOfText_upTo hvalue budget spacing _
          (endsNumber_spacedFields spacing fields level rest), depthOfFields]
      exact upTo_bind hrest

theorem readsUpTo_object {fields : Fields} (hkeys : fields.keys.Nodup)
    (h : ∀ entry ∈ fields, ReadsUpTo entry.2) : ReadsUpTo (.object fields) := by
  intro budget spacing level rest _
  cases budget with
  | zero =>
      rw [upTo_of_not_le (by rw [depth]; omega)]
      cases fields <;> rfl
  | succ budget =>
      rw [depth, upTo_succ]
      cases fields with
      | nil => rfl
      | cons entry fields =>
          obtain ⟨key, value⟩ := entry
          obtain ⟨hvalue, hfields⟩ := List.forall_mem_cons.mp h
          have hfuel := length_lt_spacedFields spacing key value fields level rest
          have hrest := members_upTo hfields budget spacing level rest [(key, value)] hkeys hfuel
          rw [spacedOnto, startOfText_brace,
            members_step ((nextKey_skip (spacing.line_blank _) _ _).trans (nextKey_first key _)),
            fieldOfText_upTo hvalue budget spacing _
              (endsNumber_spacedFields spacing fields level rest), upTo_bind hrest]
          exact upTo_map Document.object

theorem Legible.readsUpTo {document : Document} (h : Legible NumberReads document) :
    ReadsUpTo document := by
  induction h with
  | null => exact readsUpTo_null
  | boolean b => exact readsUpTo_boolean b
  | number h => exact readsUpTo_number h
  | string s => exact readsUpTo_string s
  | array hitems ih => exact readsUpTo_array hitems ih
  | object hkeys _ ih => exact readsUpTo_object hkeys ih

theorem ofText_spaced {document : Document} (h : Legible NumberReads document)
    (spacing : Spacing) (level : Nat) :
    ofText (String.ofList (spacedOnto spacing document level [])) =
      if document.depth ≤ nestingLimit then .ok document else malformed := by
  rw [ofText, String.toList_ofList,
    h.readsUpTo nestingLimit spacing level [] (by simp [EndsNumber])]
  by_cases hdepth : document.depth ≤ nestingLimit
  · rw [upTo_of_le hdepth, if_pos hdepth]
    rfl
  · rw [upTo_of_not_le hdepth, if_neg hdepth]
    rfl

/-- The compact text of a legible document is accepted exactly within the nesting limit. -/
theorem ofText_compact {document : Document} (h : Legible NumberReads document) :
    ofText document.compact =
      if document.depth ≤ nestingLimit then .ok document else malformed := by
  rw [compact, compactOnto_eq_spacedOnto 0]
  exact ofText_spaced h .tight 0

/-- The indented text of a legible document is accepted exactly within the nesting limit. -/
theorem ofText_pretty {document : Document} (h : Legible NumberReads document) :
    ofText document.pretty =
      if document.depth ≤ nestingLimit then .ok document else malformed := by
  rw [pretty, prettyOnto_eq_spacedOnto]
  exact ofText_spaced h .indented 0

end Document

end AggQuery
