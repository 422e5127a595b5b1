import AggQuery.Document.Lexeme
import AggQuery.Document.Writer

/-!
# Documents with blanks between their lexemes

The compact and the indented text of a document differ in the blanks between lexemes alone.
`Document.spacedOnto` writes a document with any blanks at the places where the indented
text has some, so what a reader does with both texts is stated once.

## Implementation notes

The level is carried along even where no blank depends on it, so that the compact text is
an instance as it stands.
-/

namespace AggQuery

/-- The blanks of a text: before an entry or a closing bracket at a level, and between a
colon and its value. -/
structure Spacing where
  line : Nat → List Char
  gap : List Char
  line_blank : ∀ level, ∀ c ∈ line level, Lexeme.isBlank c = true
  gap_blank : ∀ c ∈ gap, Lexeme.isBlank c = true

namespace Spacing

/-- No blanks. -/
def tight : Spacing where
  line _ := []
  gap := []
  line_blank := by simp
  gap_blank := by simp

/-- One entry a line, two blanks deeper at each level. -/
def indented : Spacing where
  line level := Document.lineOnto level []
  gap := [' ']
  line_blank := by
    intro level c hc
    simp only [Document.lineOnto, List.append_nil, List.mem_cons, List.mem_replicate] at hc
    rcases hc with rfl | ⟨_, rfl⟩ <;> decide
  gap_blank := by simp [Lexeme.isBlank]

end Spacing

namespace Document

mutual

/-- The text of a document, with the given blanks, in front of `rest`. -/
def spacedOnto (spacing : Spacing) (document : Document) (level : Nat) (rest : List Char) :
    List Char :=
  match document with
  | .null => nullText ++ rest
  | .boolean b => booleanText b ++ rest
  | .number n => numberText n ++ rest
  | .string s => quoteOnto s rest
  | .array [] => '[' :: ']' :: rest
  | .array (item :: items) =>
    '[' :: (spacing.line (level + 1) ++ spacedOnto spacing item (level + 1)
      (spacedItemsOnto spacing items level (spacing.line level ++ ']' :: rest)))
  | .object [] => '\x7b' :: '\x7d' :: rest
  | .object ((key, value) :: fields) =>
    '\x7b' :: (spacing.line (level + 1) ++ quoteOnto key (':' :: (spacing.gap ++
      spacedOnto spacing value (level + 1)
        (spacedFieldsOnto spacing fields level (spacing.line level ++ '\x7d' :: rest)))))

/-- The items after the first, each behind a comma. -/
def spacedItemsOnto (spacing : Spacing) (items : List Document) (level : Nat)
    (rest : List Char) : List Char :=
  match items with
  | [] => rest
  | item :: items =>
    ',' :: (spacing.line (level + 1) ++ spacedOnto spacing item (level + 1)
      (spacedItemsOnto spacing items level rest))

/-- The fields after the first, each behind a comma. -/
def spacedFieldsOnto (spacing : Spacing) (fields : List (String × Document)) (level : Nat)
    (rest : List Char) : List Char :=
  match fields with
  | [] => rest
  | (key, value) :: fields =>
    ',' :: (spacing.line (level + 1) ++ quoteOnto key (':' :: (spacing.gap ++
      spacedOnto spacing value (level + 1) (spacedFieldsOnto spacing fields level rest))))

end

mutual

theorem compactOnto_eq_spacedOnto (level : Nat) : ∀ (document : Document) (rest : List Char),
    compactOnto document rest = spacedOnto .tight document level rest
  | .null, _ | .boolean _, _ | .number _, _ | .string _, _ | .array [], _ | .object [], _ => by
      simp [compactOnto, spacedOnto]
  | .array (item :: items), rest => by
      rw [compactOnto, spacedOnto, compactItemsOnto_eq_spacedItemsOnto level items,
        compactOnto_eq_spacedOnto (level + 1) item]
      rfl
  | .object ((key, value) :: fields), rest => by
      rw [compactOnto, spacedOnto, compactFieldsOnto_eq_spacedFieldsOnto level fields,
        compactOnto_eq_spacedOnto (level + 1) value]
      rfl

theorem compactItemsOnto_eq_spacedItemsOnto (level : Nat) :
    ∀ (items : List Document) (rest : List Char),
      compactItemsOnto items rest = spacedItemsOnto .tight items level rest
  | [], _ => rfl
  | item :: items, rest => by
      rw [compactItemsOnto, spacedItemsOnto, compactItemsOnto_eq_spacedItemsOnto level items,
        compactOnto_eq_spacedOnto (level + 1) item]
      rfl

theorem compactFieldsOnto_eq_spacedFieldsOnto (level : Nat) :
    ∀ (fields : List (String × Document)) (rest : List Char),
      compactFieldsOnto fields rest = spacedFieldsOnto .tight fields level rest
  | [], _ => rfl
  | (key, value) :: fields, rest => by
      rw [compactFieldsOnto, spacedFieldsOnto,
        compactFieldsOnto_eq_spacedFieldsOnto level fields,
        compactOnto_eq_spacedOnto (level + 1) value]
      rfl

end

theorem lineOnto_eq (level : Nat) (rest : List Char) :
    lineOnto level rest = Spacing.indented.line level ++ rest := by
  simp [lineOnto, Spacing.indented]

mutual

theorem prettyOnto_eq_spacedOnto : ∀ (document : Document) (level : Nat) (rest : List Char),
    prettyOnto document level rest = spacedOnto .indented document level rest
  | .null, _, _ | .boolean _, _, _ | .number _, _, _ | .string _, _, _ | .array [], _, _
  | .object [], _, _ => by
      simp [prettyOnto, spacedOnto]
  | .array (item :: items), level, rest => by
      rw [prettyOnto, spacedOnto, prettyItemsOnto_eq_spacedItemsOnto items,
        prettyOnto_eq_spacedOnto item, lineOnto_eq, lineOnto_eq]
  | .object ((key, value) :: fields), level, rest => by
      rw [prettyOnto, spacedOnto, prettyFieldsOnto_eq_spacedFieldsOnto fields,
        prettyOnto_eq_spacedOnto value, lineOnto_eq, lineOnto_eq]
      rfl

theorem prettyItemsOnto_eq_spacedItemsOnto :
    ∀ (items : List Document) (level : Nat) (rest : List Char),
      prettyItemsOnto items level rest = spacedItemsOnto .indented items level rest
  | [], _, _ => rfl
  | item :: items, level, rest => by
      rw [prettyItemsOnto, spacedItemsOnto, prettyItemsOnto_eq_spacedItemsOnto items,
        prettyOnto_eq_spacedOnto item, lineOnto_eq]

theorem prettyFieldsOnto_eq_spacedFieldsOnto :
    ∀ (fields : List (String × Document)) (level : Nat) (rest : List Char),
      prettyFieldsOnto fields level rest = spacedFieldsOnto .indented fields level rest
  | [], _, _ => rfl
  | (key, value) :: fields, level, rest => by
      rw [prettyFieldsOnto, spacedFieldsOnto, prettyFieldsOnto_eq_spacedFieldsOnto fields,
        prettyOnto_eq_spacedOnto value, lineOnto_eq]
      rfl

end

variable (spacing : Spacing)

mutual

/-- The text of a document stands in front of the rest and drops nothing of it; each further
item or field takes at least one character. -/
theorem length_le_spacedOnto : ∀ (document : Document) (level : Nat) (rest : List Char),
    rest.length ≤ (spacedOnto spacing document level rest).length
  | .null, _, _ | .boolean _, _, _ | .number _, _, _ | .string _, _, _ | .array [], _, _
  | .object [], _, _ => by
      simp only [spacedOnto, quoteOnto, List.length_cons, List.length_append]
      omega
  | .array (item :: items), level, rest => by
      have hitem := length_le_spacedOnto item (level + 1)
        (spacedItemsOnto spacing items level (spacing.line level ++ ']' :: rest))
      have hitems := length_le_spacedItemsOnto items level (spacing.line level ++ ']' :: rest)
      simp only [spacedOnto, List.length_cons, List.length_append] at hitem hitems ⊢
      omega
  | .object ((key, value) :: fields), level, rest => by
      have hvalue := length_le_spacedOnto value (level + 1)
        (spacedFieldsOnto spacing fields level (spacing.line level ++ '\x7d' :: rest))
      have hfields := length_le_spacedFieldsOnto fields level
        (spacing.line level ++ '\x7d' :: rest)
      simp only [spacedOnto, quoteOnto, List.length_cons, List.length_append] at hvalue hfields ⊢
      omega

theorem length_le_spacedItemsOnto :
    ∀ (items : List Document) (level : Nat) (rest : List Char),
      items.length + rest.length ≤ (spacedItemsOnto spacing items level rest).length
  | [], _, rest => Nat.le_of_eq (Nat.zero_add rest.length)
  | item :: items, level, rest => by
      have hitem := length_le_spacedOnto item (level + 1)
        (spacedItemsOnto spacing items level rest)
      have hitems := length_le_spacedItemsOnto items level rest
      simp only [spacedItemsOnto, List.length_cons, List.length_append]
      omega

theorem length_le_spacedFieldsOnto :
    ∀ (fields : List (String × Document)) (level : Nat) (rest : List Char),
      fields.length + rest.length ≤ (spacedFieldsOnto spacing fields level rest).length
  | [], _, rest => Nat.le_of_eq (Nat.zero_add rest.length)
  | (key, value) :: fields, level, rest => by
      have hvalue := length_le_spacedOnto value (level + 1)
        (spacedFieldsOnto spacing fields level rest)
      have hfields := length_le_spacedFieldsOnto fields level rest
      simp only [spacedFieldsOnto, quoteOnto, List.length_cons, List.length_append]
      omega

end

end Document

end AggQuery
