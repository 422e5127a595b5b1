import AggQuery.Proofs.Document.Lexeme
import AggQuery.Proofs.Document.NumberText
import AggQuery.Proofs.Document.Spacing

/-!
# Blanks outside of strings

`Document.withoutBlanks` drops the blanks between the lexemes of a text and keeps those
inside strings. It takes the indented text of every document to its compact text.

## Implementation notes

What is dropped depends only on whether a string is open, so the scanner is one function on
that state and the text. A blank inside a string is kept, although a line break there cannot
occur in document text.
-/

namespace AggQuery

open Lexeme

namespace Document

/-- The characters without the blanks outside of strings; `quoted` says whether a string is
open. A character behind a backslash does not close a string. -/
def dropBlanks (quoted : Bool) (text : List Char) : List Char :=
  match quoted, text with
  | _, [] => []
  | false, c :: rest => if isBlank c then dropBlanks false rest else c :: dropBlanks (c == '"') rest
  | true, '\\' :: c :: rest => '\\' :: c :: dropBlanks true rest
  | true, c :: rest => c :: dropBlanks (c != '"') rest

/-- A text without its blanks outside of strings. -/
def withoutBlanks (text : String) : String := String.ofList (dropBlanks false text.toList)

theorem dropBlanks_blanks {blanks : List Char} (h : ∀ c ∈ blanks, isBlank c = true)
    (rest : List Char) : dropBlanks false (blanks ++ rest) = dropBlanks false rest := by
  induction blanks with
  | nil => rfl
  | cons c blanks ih =>
      obtain ⟨hc, hblanks⟩ := List.forall_mem_cons.mp h
      rw [List.cons_append, dropBlanks, if_pos hc, ih hblanks]

/-- A character between lexemes that is neither blank nor a quote. -/
def IsBare (c : Char) : Prop := isBlank c = false ∧ c ≠ '"'

instance (c : Char) : Decidable (IsBare c) := inferInstanceAs (Decidable (_ ∧ _))

/-- A fixed text is bare when a run over its characters says so. -/
theorem isBare_of_all {text : List Char} (h : text.all (IsBare ·) = true) :
    ∀ c ∈ text, IsBare c := fun c hc => of_decide_eq_true (List.all_eq_true.mp h c hc)

theorem dropBlanks_cons_bare {c : Char} (h : IsBare c) (rest : List Char) :
    dropBlanks false (c :: rest) = c :: dropBlanks false rest := by
  rw [dropBlanks, if_neg (by simp [h.1]), beq_false_of_ne h.2]

theorem dropBlanks_bare {word : List Char} (h : ∀ c ∈ word, IsBare c) (rest : List Char) :
    dropBlanks false (word ++ rest) = word ++ dropBlanks false rest := by
  induction word with
  | nil => rfl
  | cons c word ih =>
      obtain ⟨hc, hword⟩ := List.forall_mem_cons.mp h
      rw [List.cons_append, dropBlanks_cons_bare hc, ih hword, List.cons_append]

theorem dropBlanks_plain {c : Char} (hquote : c ≠ '"') (hbackslash : c ≠ '\\')
    (rest : List Char) : dropBlanks true (c :: rest) = c :: dropBlanks true rest := by
  have hopen : (c != '"') = true := bne_iff_ne.mpr hquote
  rw [dropBlanks.eq_def]
  simp [hbackslash, hopen]

theorem dropBlanks_backslash (c : Char) (rest : List Char) :
    dropBlanks true ('\\' :: c :: rest) = '\\' :: c :: dropBlanks true rest := rfl

theorem hexDigit_ne_mark : ∀ n < 16, Text.hexDigit n ≠ '"' ∧ Text.hexDigit n ≠ '\\' := by
  decide

/-- An escaped character closes no string and loses nothing. -/
theorem dropBlanks_escapeChar (c : Char) (rest : List Char) :
    dropBlanks true (escapeChar c ++ rest) = escapeChar c ++ dropBlanks true rest := by
  rcases escapeChar_cases c with ⟨letter, htext, -⟩ | ⟨hcontrol, htext⟩ |
    ⟨hquote, hbackslash, -, htext⟩
  · rw [htext]
    exact dropBlanks_backslash letter rest
  · obtain ⟨hhigh, hhigh'⟩ := hexDigit_ne_mark (c.toNat / 16) (by omega)
    obtain ⟨hlow, hlow'⟩ := hexDigit_ne_mark (c.toNat % 16) (by omega)
    simp only [htext, List.cons_append, List.nil_append]
    rw [dropBlanks_backslash, dropBlanks_plain (by decide) (by decide),
      dropBlanks_plain (by decide) (by decide), dropBlanks_plain hhigh hhigh',
      dropBlanks_plain hlow hlow']
  · rw [htext]
    exact dropBlanks_plain hquote hbackslash rest

theorem dropBlanks_escaped (token rest : List Char) :
    dropBlanks true (token.flatMap escapeChar ++ rest) =
      token.flatMap escapeChar ++ dropBlanks true rest := by
  induction token with
  | nil => rfl
  | cons c token ih =>
      rw [List.flatMap_cons, List.append_assoc, dropBlanks_escapeChar, ih, List.append_assoc]

/-- A string stays as it is. -/
theorem dropBlanks_quoteOnto (s : String) (rest : List Char) :
    dropBlanks false (quoteOnto s rest) = quoteOnto s (dropBlanks false rest) := by
  have hopen (text : List Char) : dropBlanks false ('"' :: text) = '"' :: dropBlanks true text :=
    rfl
  have hclose (text : List Char) : dropBlanks true ('"' :: text) = '"' :: dropBlanks false text :=
    rfl
  simp only [quoteOnto, List.cons_append]
  rw [hopen, dropBlanks_escaped, hclose]

theorem isBare_of_isNumberChar {c : Char} (h : isNumberChar c = true) : IsBare c := by
  have hne (other : Char) (hother : isNumberChar other = false) : c ≠ other := by
    rintro rfl
    rw [h] at hother
    cases hother
  constructor
  · simp [isBlank, hne ' ' rfl, hne '\n' rfl, hne '\t' rfl, hne '\r' rfl]
  · exact hne '"' rfl

theorem isBare_floatText (x : Binary64) : ∀ c ∈ (Layout.document.write x).toList, IsBare c := by
  unfold Layout.write
  split
  · exact isBare_of_all rfl
  split
  · split <;> exact isBare_of_all rfl
  rw [String.toList_ofList]
  refine List.forall_mem_append.mpr ⟨?_, fun c hc =>
    isBare_of_isNumberChar (isNumberChar_of_mem_magnitude x c hc)⟩
  split <;> exact isBare_of_all rfl

theorem isBare_numberText (n : Number) : ∀ c ∈ numberText n, IsBare c := by
  cases n with
  | integer n =>
      exact fun c hc => isBare_of_isNumberChar (isNumberChar_of_mem_integerText n c hc)
  | float x => exact isBare_floatText x

theorem isBare_booleanText (b : Bool) : ∀ c ∈ booleanText b, IsBare c := by
  cases b <;> exact isBare_of_all rfl

variable (spacing : Spacing)

mutual

/-- Without the blanks between its lexemes, the text of a document is its compact text. -/
theorem dropBlanks_spacedOnto : ∀ (document : Document) (level : Nat) (rest : List Char),
    dropBlanks false (spacedOnto spacing document level rest) =
      compactOnto document (dropBlanks false rest)
  | .null, _, rest => dropBlanks_bare (isBare_of_all rfl) rest
  | .boolean b, _, rest => dropBlanks_bare (isBare_booleanText b) rest
  | .number n, _, rest => dropBlanks_bare (isBare_numberText n) rest
  | .string s, _, rest => dropBlanks_quoteOnto s rest
  | .array [], _, rest => by
      rw [spacedOnto, dropBlanks_cons_bare (by decide), dropBlanks_cons_bare (by decide),
        compactOnto]
  | .object [], _, rest => by
      rw [spacedOnto, dropBlanks_cons_bare (by decide), dropBlanks_cons_bare (by decide),
        compactOnto]
  | .array (item :: items), level, rest => by
      rw [spacedOnto, dropBlanks_cons_bare (by decide),
        dropBlanks_blanks (spacing.line_blank _), dropBlanks_spacedOnto item,
        dropBlanks_spacedItemsOnto items, dropBlanks_blanks (spacing.line_blank _),
        dropBlanks_cons_bare (by decide), compactOnto]
  | .object ((key, value) :: fields), level, rest => by
      rw [spacedOnto, dropBlanks_cons_bare (by decide),
        dropBlanks_blanks (spacing.line_blank _), dropBlanks_quoteOnto,
        dropBlanks_cons_bare (by decide), dropBlanks_blanks spacing.gap_blank,
        dropBlanks_spacedOnto value, dropBlanks_spacedFieldsOnto fields,
        dropBlanks_blanks (spacing.line_blank _), dropBlanks_cons_bare (by decide), compactOnto]

theorem dropBlanks_spacedItemsOnto :
    ∀ (items : List Document) (level : Nat) (rest : List Char),
      dropBlanks false (spacedItemsOnto spacing items level rest) =
        compactItemsOnto items (dropBlanks false rest)
  | [], _, _ => rfl
  | item :: items, level, rest => by
      rw [spacedItemsOnto, dropBlanks_cons_bare (by decide),
        dropBlanks_blanks (spacing.line_blank _), dropBlanks_spacedOnto item,
        dropBlanks_spacedItemsOnto items, compactItemsOnto]

theorem dropBlanks_spacedFieldsOnto :
    ∀ (fields : List (String × Document)) (level : Nat) (rest : List Char),
      dropBlanks false (spacedFieldsOnto spacing fields level rest) =
        compactFieldsOnto fields (dropBlanks false rest)
  | [], _, _ => rfl
  | (key, value) :: fields, level, rest => by
      rw [spacedFieldsOnto, dropBlanks_cons_bare (by decide),
        dropBlanks_blanks (spacing.line_blank _), dropBlanks_quoteOnto,
        dropBlanks_cons_bare (by decide), dropBlanks_blanks spacing.gap_blank,
        dropBlanks_spacedOnto value, dropBlanks_spacedFieldsOnto fields, compactFieldsOnto]

end

/-- The indented text differs from the compact text in blanks outside of strings only. -/
theorem withoutBlanks_pretty (document : Document) :
    withoutBlanks document.pretty = document.compact := by
  rw [withoutBlanks, pretty, compact, String.toList_ofList, prettyOnto_eq_spacedOnto,
    dropBlanks_spacedOnto]
  rfl

example : withoutBlanks (pretty (.object [("a b", .array [ofInt 1, .string " \" "])])) =
    "\x7b\"a b\":[1,\" \\\" \"]\x7d" := by decide +kernel

end Document

end AggQuery
