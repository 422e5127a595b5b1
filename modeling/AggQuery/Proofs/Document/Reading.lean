import AggQuery.Document.Reader
import AggQuery.Proofs.Document.Legible
import AggQuery.Proofs.Document.Lexeme
import AggQuery.Proofs.Document.NumberText
import AggQuery.Proofs.Document.Spacing

/-!
# Document text reads back

A document whose objects have no key twice and whose numbers read back is read from its
compact and from its indented text (`parse_compact`, `parse_pretty`). Both are cases of one
statement on `spacedOnto`, which is proved node by node.

## Implementation notes

The reader's fuel is measured against the characters that a value takes, twice for each: a
container spends one unit for itself and one for each entry, and each of them has a
character of its own.
-/

namespace AggQuery

open Lexeme

namespace Document

/-- The document is read back from its text with any blanks, in front of any text that
does not continue a number. -/
def Reads (document : Document) : Prop :=
  ∀ (spacing : Spacing) (level : Nat) (rest : List Char) (fuel : Nat), EndsNumber rest →
    2 * (spacedOnto spacing document level rest).length < fuel + 2 * rest.length →
      readValue fuel (spacedOnto spacing document level rest) = .ok (document, rest)

theorem readValue_skip {blanks : List Char} (h : ∀ c ∈ blanks, isBlank c = true)
    (fuel : Nat) (text : List Char) : readValue fuel (blanks ++ text) = readValue fuel text := by
  cases fuel with
  | zero => rfl
  | succ fuel => rw [readValue, readValue, skipBlanks_append h]

/-- The text of a value takes at least one unit of fuel. -/
theorem exists_fuel {spacing : Spacing} {document : Document} {level : Nat}
    {rest : List Char} {fuel : Nat}
    (h : 2 * (spacedOnto spacing document level rest).length < fuel + 2 * rest.length) :
    ∃ less, fuel = less + 1 := by
  have hlength := length_le_spacedOnto spacing document level rest
  exact Nat.exists_eq_add_one.mpr (by omega)

theorem reads_null : Reads .null := by
  intro spacing level rest fuel _ hfuel
  obtain ⟨less, rfl⟩ := exists_fuel hfuel
  rfl

theorem reads_boolean (b : Bool) : Reads (.boolean b) := by
  intro spacing level rest fuel _ hfuel
  obtain ⟨less, rfl⟩ := exists_fuel hfuel
  cases b <;> rfl

theorem reads_string (s : String) : Reads (.string s) := by
  intro spacing level rest fuel _ hfuel
  obtain ⟨less, rfl⟩ := exists_fuel hfuel
  obtain ⟨text, htext, hread⟩ := readString_quoteOnto s rest
  rw [spacedOnto, htext, readValue, skipBlanks_cons (by decide)]
  simp [hread, Except.map]

theorem readValue_number {c : Char} (h : c = '-' ∨ c.isDigit = true) (fuel : Nat)
    (rest : List Char) :
    readValue (fuel + 1) (c :: rest) =
      (readNumber (c :: rest)).map fun (n, rest) => (.number n, rest) := by
  have hne (other : Char) (hsign : other ≠ '-') (hdigit : other.isDigit = false) : c ≠ other :=
    ne_of_numberStart h hsign hdigit
  rw [readValue, skipBlanks_cons (isBlank_of_numberStart h)]
  simp only [hne '"' (by decide) (by decide), hne '[' (by decide) (by decide),
    hne '\x7b' (by decide) (by decide), hne 'n' (by decide) (by decide),
    hne 't' (by decide) (by decide), hne 'f' (by decide) (by decide), h, if_true, if_false]

theorem reads_number {n : Number} (h : NumberReads n) : Reads (.number n) := by
  intro spacing level rest fuel hrest hfuel
  obtain ⟨less, rfl⟩ := exists_fuel hfuel
  obtain ⟨c, tail, htext, hc⟩ := h.head
  have hread := h rest hrest
  rw [htext, List.cons_append] at hread
  rw [spacedOnto, htext, List.cons_append, readValue_number hc, hread]
  rfl

theorem endsNumber_blanks {blanks rest : List Char} (h : ∀ c ∈ blanks, isBlank c = true)
    (hrest : EndsNumber rest) : EndsNumber (blanks ++ rest) := by
  cases blanks with
  | nil => exact hrest
  | cons c more =>
      intro other hother
      obtain rfl : c = other := by simpa using hother
      have hc := h c List.mem_cons_self
      simp only [isBlank, Bool.or_eq_true, decide_eq_true_eq] at hc
      rcases hc with ((rfl | rfl) | rfl) | rfl <;> decide

/-- One item is read, with the blanks before it, up to the text after it. -/
theorem readItems_step {item : Document} (hitem : Reads item) (spacing : Spacing)
    (level : Nat) (acc : List Document) {after : List Char} (hafter : EndsNumber after)
    {fuel : Nat} (hfuel : 2 * (spacing.line (level + 1) ++
      spacedOnto spacing item (level + 1) after).length < fuel + 2 * after.length) :
    readItems (fuel + 1) acc
        (spacing.line (level + 1) ++ spacedOnto spacing item (level + 1) after) =
      match skipBlanks after with
      | [] => .error .truncated
      | c :: rest =>
        if c = ']' then .ok (.array (item :: acc).reverse, rest)
        else if c = ',' then readItems fuel (item :: acc) rest
        else .error .malformed := by
  rw [List.length_append] at hfuel
  have hread := hitem spacing (level + 1) after fuel hafter (by omega)
  rewrite [readItems, readValue_skip (spacing.line_blank _), hread]
  rfl

theorem endsNumber_spacedItems (spacing : Spacing) (items : List Document) (level : Nat)
    (rest : List Char) :
    EndsNumber (spacedItemsOnto spacing items level (spacing.line level ++ ']' :: rest)) := by
  cases items with
  | nil => exact endsNumber_blanks (spacing.line_blank level) (by simp [EndsNumber])
  | cons item items => simp [spacedItemsOnto, EndsNumber]

/-- The items from one item on are read up to the closing bracket. -/
theorem readItems_spaced (spacing : Spacing) (level : Nat) (rest : List Char)
    {items : List Document} (hitems : ∀ item ∈ items, Reads item) {item : Document}
    (hitem : Reads item) (acc : List Document) (fuel : Nat)
    (hfuel : 2 * (spacing.line (level + 1) ++ spacedOnto spacing item (level + 1)
      (spacedItemsOnto spacing items level (spacing.line level ++ ']' :: rest))).length <
        fuel + 2 * rest.length) :
    readItems fuel acc (spacing.line (level + 1) ++ spacedOnto spacing item (level + 1)
      (spacedItemsOnto spacing items level (spacing.line level ++ ']' :: rest))) =
        .ok (.array (acc.reverse ++ item :: items), rest) := by
  induction items generalizing item acc fuel with
  | nil =>
      have hafter := endsNumber_spacedItems spacing [] level rest
      have hlength := length_le_spacedOnto spacing item (level + 1)
        (spacedItemsOnto spacing [] level (spacing.line level ++ ']' :: rest))
      have hlast : (spacedItemsOnto spacing [] level (spacing.line level ++ ']' :: rest)).length =
          (spacing.line level).length + rest.length + 1 := by
        simp [spacedItemsOnto, Nat.add_assoc]
      rw [List.length_append] at hfuel
      obtain ⟨less, rfl⟩ : ∃ less, fuel = less + 1 := Nat.exists_eq_add_one.mpr (by omega)
      rw [readItems_step hitem spacing level acc hafter
        (by rw [List.length_append]; omega), spacedItemsOnto,
        skipBlanks_append (spacing.line_blank level), skipBlanks_cons (by decide)]
      simp
  | cons next more ih =>
      obtain ⟨hnext, hmore⟩ := List.forall_mem_cons.mp hitems
      have hafter := endsNumber_spacedItems spacing (next :: more) level rest
      have hlength := length_le_spacedOnto spacing item (level + 1)
        (spacedItemsOnto spacing (next :: more) level (spacing.line level ++ ']' :: rest))
      have hnextLength := length_le_spacedOnto spacing next (level + 1)
        (spacedItemsOnto spacing more level (spacing.line level ++ ']' :: rest))
      have hmoreLength := length_le_spacedItemsOnto spacing more level
        (spacing.line level ++ ']' :: rest)
      have hcomma : (spacedItemsOnto spacing (next :: more) level
          (spacing.line level ++ ']' :: rest)).length =
            (spacing.line (level + 1) ++ spacedOnto spacing next (level + 1)
              (spacedItemsOnto spacing more level
                (spacing.line level ++ ']' :: rest))).length + 1 := by
        rw [spacedItemsOnto, List.length_cons]
      simp only [List.length_append, List.length_cons] at hfuel hmoreLength hcomma
      obtain ⟨less, rfl⟩ : ∃ less, fuel = less + 1 := Nat.exists_eq_add_one.mpr (by omega)
      have hrest := ih hmore hnext (item :: acc) less (by rw [List.length_append]; omega)
      rw [readItems_step hitem spacing level acc hafter (by rw [List.length_append]; omega),
        spacedItemsOnto, skipBlanks_cons (by decide)]
      dsimp only
      rw [if_neg (by decide), if_pos rfl, hrest]
      simp

/-- A value does not start like the end of an array. -/
theorem Reads.skipBlanks_ne {item : Document} (h : Reads item) (spacing : Spacing)
    (level : Nat) {after : List Char} (hafter : EndsNumber after) (tail : List Char) :
    skipBlanks (spacedOnto spacing item level after) ≠ ']' :: tail := by
  intro heq
  have hread := h spacing level after
    (2 * (spacedOnto spacing item level after).length + 1) hafter (by omega)
  rw [readValue, heq] at hread
  simp at hread

theorem reads_array {items : List Document} (h : ∀ item ∈ items, Reads item) :
    Reads (.array items) := by
  intro spacing level rest fuel _ hfuel
  obtain ⟨less, rfl⟩ := exists_fuel hfuel
  cases items with
  | nil => rfl
  | cons item items =>
      obtain ⟨hitem, hitems⟩ := List.forall_mem_cons.mp h
      rw [spacedOnto, List.length_cons] at hfuel
      have hread := readItems_spaced spacing level rest hitems hitem [] less (by omega)
      have hopen := hitem.skipBlanks_ne spacing (level + 1)
        (endsNumber_spacedItems spacing items level rest)
      rw [spacedOnto, readValue, skipBlanks_cons (by decide)]
      dsimp only
      rw [if_neg (by decide), if_pos rfl, skipBlanks_append (spacing.line_blank _)]
      split
      · next heq => exact absurd heq (hopen _)
      · exact hread

/-- One field is read, with the blanks before it, up to the text after it. -/
theorem readFields_step {key : String} {value : Document} (hvalue : Reads value)
    (spacing : Spacing) (level : Nat) (acc : Fields) {after : List Char}
    (hafter : EndsNumber after) {fuel : Nat}
    (hfuel : 2 * (spacing.line (level + 1) ++ quoteOnto key (':' :: (spacing.gap ++
      spacedOnto spacing value (level + 1) after))).length < fuel + 2 * after.length) :
    readFields (fuel + 1) acc (spacing.line (level + 1) ++ quoteOnto key (':' :: (spacing.gap ++
        spacedOnto spacing value (level + 1) after))) =
      match skipBlanks after with
      | [] => .error .truncated
      | c :: rest =>
        if c = '\x7d' then .ok (.object (acc.set key value), rest)
        else if c = ',' then readFields fuel (acc.set key value) rest
        else .error .malformed := by
  obtain ⟨text, htext, hkey⟩ := readString_quoteOnto key (':' :: (spacing.gap ++
    spacedOnto spacing value (level + 1) after))
  have hread := hvalue spacing (level + 1) after fuel hafter (by
    simp only [quoteOnto, List.length_append, List.length_cons] at hfuel
    omega)
  rw [readFields, skipBlanks_append (spacing.line_blank _), htext, skipBlanks_cons (by decide)]
  dsimp only
  rw [if_pos rfl, hkey]
  dsimp only
  rw [colon, skipBlanks_cons (by decide)]
  dsimp only
  rw [if_pos rfl]
  dsimp only
  rewrite [readValue_skip spacing.gap_blank, hread]
  rfl

theorem endsNumber_spacedFields (spacing : Spacing) (fields : Fields) (level : Nat)
    (rest : List Char) :
    EndsNumber
      (spacedFieldsOnto spacing fields level (spacing.line level ++ '\x7d' :: rest)) := by
  cases fields with
  | nil => exact endsNumber_blanks (spacing.line_blank level) (by simp [EndsNumber])
  | cons entry fields => simp [spacedFieldsOnto, EndsNumber]

theorem notMem_keys_of_nodup {before after : Fields} {key : String} {value : Document}
    (h : (before ++ (key, value) :: after).keys.Nodup) : key ∉ before.keys := by
  rw [Fields.keys_append, Fields.keys_cons] at h
  intro hmem
  exact (List.nodup_append.mp h).2.2 key hmem key List.mem_cons_self rfl

/-- The fields from one key on are read up to the closing bracket. -/
theorem readFields_spaced (spacing : Spacing) (level : Nat) (rest : List Char)
    {fields : Fields} (hfields : ∀ entry ∈ fields, Reads entry.2) {key : String}
    {value : Document} (hvalue : Reads value) (acc : Fields)
    (hkeys : (acc ++ (key, value) :: fields).keys.Nodup) (fuel : Nat)
    (hfuel : 2 * (spacing.line (level + 1) ++ quoteOnto key (':' :: (spacing.gap ++
      spacedOnto spacing value (level + 1) (spacedFieldsOnto spacing fields level
        (spacing.line level ++ '\x7d' :: rest))))).length < fuel + 2 * rest.length) :
    readFields fuel acc (spacing.line (level + 1) ++ quoteOnto key (':' :: (spacing.gap ++
      spacedOnto spacing value (level + 1) (spacedFieldsOnto spacing fields level
        (spacing.line level ++ '\x7d' :: rest))))) =
          .ok (.object (acc ++ (key, value) :: fields), rest) := by
  induction fields generalizing key value acc fuel with
  | nil =>
      have hafter := endsNumber_spacedFields spacing [] level rest
      have hlength := length_le_spacedOnto spacing value (level + 1)
        (spacedFieldsOnto spacing [] level (spacing.line level ++ '\x7d' :: rest))
      have hlast :
          (spacedFieldsOnto spacing [] level (spacing.line level ++ '\x7d' :: rest)).length =
            (spacing.line level).length + rest.length + 1 := by
        simp [spacedFieldsOnto, Nat.add_assoc]
      simp only [quoteOnto, List.length_append, List.length_cons] at hfuel
      obtain ⟨less, rfl⟩ : ∃ less, fuel = less + 1 := Nat.exists_eq_add_one.mpr (by omega)
      rw [readFields_step hvalue spacing level acc hafter
        (by simp only [quoteOnto, List.length_append, List.length_cons]; omega),
        spacedFieldsOnto, skipBlanks_append (spacing.line_blank level),
        skipBlanks_cons (by decide)]
      dsimp only
      rw [if_pos rfl, Fields.set_of_notMem value (notMem_keys_of_nodup hkeys)]
  | cons entry more ih =>
      obtain ⟨nextKey, next⟩ := entry
      obtain ⟨hnext, hmore⟩ := List.forall_mem_cons.mp hfields
      have hafter := endsNumber_spacedFields spacing ((nextKey, next) :: more) level rest
      have hlength := length_le_spacedOnto spacing value (level + 1)
        (spacedFieldsOnto spacing ((nextKey, next) :: more) level
          (spacing.line level ++ '\x7d' :: rest))
      have hnextLength := length_le_spacedOnto spacing next (level + 1)
        (spacedFieldsOnto spacing more level (spacing.line level ++ '\x7d' :: rest))
      have hmoreLength := length_le_spacedFieldsOnto spacing more level
        (spacing.line level ++ '\x7d' :: rest)
      have hcomma : (spacedFieldsOnto spacing ((nextKey, next) :: more) level
          (spacing.line level ++ '\x7d' :: rest)).length =
            (spacing.line (level + 1) ++ quoteOnto nextKey (':' :: (spacing.gap ++
              spacedOnto spacing next (level + 1) (spacedFieldsOnto spacing more level
                (spacing.line level ++ '\x7d' :: rest))))).length + 1 := by
        rw [spacedFieldsOnto, List.length_cons]
      simp only [quoteOnto, List.length_append, List.length_cons] at hfuel hmoreLength hcomma
      obtain ⟨less, rfl⟩ : ∃ less, fuel = less + 1 := Nat.exists_eq_add_one.mpr (by omega)
      have hkeysNext : ((acc ++ [(key, value)]) ++ (nextKey, next) :: more).keys.Nodup := by
        rw [List.append_assoc]
        exact hkeys
      have hrest := ih hmore hnext (acc ++ [(key, value)]) hkeysNext less
        (by simp only [quoteOnto, List.length_append, List.length_cons]; omega)
      rw [readFields_step hvalue spacing level acc hafter
        (by simp only [quoteOnto, List.length_append, List.length_cons]; omega),
        spacedFieldsOnto, skipBlanks_cons (by decide)]
      dsimp only
      rw [if_neg (by decide), if_pos rfl,
        Fields.set_of_notMem value (notMem_keys_of_nodup hkeys), hrest, List.append_assoc]
      rfl

theorem reads_object {fields : Fields} (hkeys : fields.keys.Nodup)
    (h : ∀ entry ∈ fields, Reads entry.2) : Reads (.object fields) := by
  intro spacing level rest fuel _ hfuel
  obtain ⟨less, rfl⟩ := exists_fuel hfuel
  cases fields with
  | nil => rfl
  | cons entry fields =>
      obtain ⟨key, value⟩ := entry
      obtain ⟨hvalue, hfields⟩ := List.forall_mem_cons.mp h
      have hvalue : Reads value := hvalue
      rw [spacedOnto, List.length_cons] at hfuel
      have hread := readFields_spaced spacing level rest hfields hvalue [] hkeys less (by omega)
      obtain ⟨text, htext, _⟩ := readString_quoteOnto key (':' :: (spacing.gap ++
        spacedOnto spacing value (level + 1) (spacedFieldsOnto spacing fields level
          (spacing.line level ++ '\x7d' :: rest))))
      rw [spacedOnto, readValue, skipBlanks_cons (by decide)]
      dsimp only
      rw [if_neg (by decide), if_neg (by decide), if_pos rfl,
        skipBlanks_append (spacing.line_blank _), htext, skipBlanks_cons (by decide), ← htext]
      exact hread

theorem Legible.reads {document : Document} (h : Legible NumberReads document) :
    Reads document := by
  induction h with
  | null => exact reads_null
  | boolean b => exact reads_boolean b
  | number h => exact reads_number h
  | string s => exact reads_string s
  | array _ ih => exact reads_array ih
  | object hkeys _ ih => exact reads_object hkeys ih

theorem parse_spaced {document : Document} (h : Legible NumberReads document)
    (spacing : Spacing) (level : Nat) :
    parse (String.ofList (spacedOnto spacing document level [])) = .ok document := by
  have hread := h.reads spacing level []
    (2 * (spacedOnto spacing document level []).length + 1) (by simp [EndsNumber]) (by simp)
  rw [parse, String.toList_ofList, hread]
  rfl

/-- The compact text of a legible document reads back. -/
theorem parse_compact {document : Document} (h : Legible NumberReads document) :
    parse document.compact = .ok document := by
  rw [compact, compactOnto_eq_spacedOnto 0]
  exact parse_spaced h .tight 0

/-- The indented text of a legible document reads back. -/
theorem parse_pretty {document : Document} (h : Legible NumberReads document) :
    parse document.pretty = .ok document := by
  rw [pretty, prettyOnto_eq_spacedOnto]
  exact parse_spaced h .indented 0

/-- Legible documents with one compact text are one document. -/
theorem compact_injective_of_legible {a b : Document} (ha : Legible NumberReads a)
    (hb : Legible NumberReads b) (h : a.compact = b.compact) : a = b := by
  have hread := parse_compact ha
  rw [h, parse_compact hb] at hread
  exact (Except.ok.inj hread).symm

end Document

end AggQuery
