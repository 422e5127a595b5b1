import AggQuery.Document.Basic
import AggQuery.Number.IntegerText
import AggQuery.Number.Layout
import AggQuery.Text.Shown

/-!
# Document text

`Document.compact` writes a document without any blank. `Document.pretty` writes one item
or field a line, two blanks deeper at each level, and empty containers as `[]` and `{}`.
In strings only the double quote, the backslash and the controls below U+0020 are escaped.

## Implementation notes

Both writers put a text in front of a given rest, so that what a reader does with the
text is stated for every rest.
-/

namespace AggQuery.Document

/-- One character of a string in document text. -/
def escapeChar (c : Char) : List Char :=
  if c = '"' then ['\\', '"']
  else if c = '\\' then ['\\', '\\']
  else if c = '\x08' then ['\\', 'b']
  else if c = '\t' then ['\\', 't']
  else if c = '\n' then ['\\', 'n']
  else if c = '\x0c' then ['\\', 'f']
  else if c = '\r' then ['\\', 'r']
  else if c.toNat < 32 then
    ['\\', 'u', '0', '0', Text.hexDigit (c.toNat / 16), Text.hexDigit (c.toNat % 16)]
  else [c]

/-- A string between double quotes, in front of `rest`. -/
def quoteOnto (s : String) (rest : List Char) : List Char :=
  '"' :: s.toList.flatMap escapeChar ++ '"' :: rest

/-- The text of a number. -/
def numberText : Number → List Char
  | .integer n => integerText n
  | .float x => (Layout.document.write x).toList

/-- The text of a truth value. -/
def booleanText (b : Bool) : List Char :=
  if b then ['t', 'r', 'u', 'e'] else ['f', 'a', 'l', 's', 'e']

/-- The text of null. -/
def nullText : List Char := ['n', 'u', 'l', 'l']

mutual

/-- The compact text of a document, in front of `rest`. -/
def compactOnto (document : Document) (rest : List Char) : List Char :=
  match document with
  | .null => nullText ++ rest
  | .boolean b => booleanText b ++ rest
  | .number n => numberText n ++ rest
  | .string s => quoteOnto s rest
  | .array [] => '[' :: ']' :: rest
  | .array (item :: items) => '[' :: compactOnto item (compactItemsOnto items (']' :: rest))
  | .object [] => '\x7b' :: '\x7d' :: rest
  | .object ((key, value) :: fields) =>
    '\x7b' :: quoteOnto key (':' :: compactOnto value (compactFieldsOnto fields ('\x7d' :: rest)))

/-- The items after the first, each behind a comma. -/
def compactItemsOnto (items : List Document) (rest : List Char) : List Char :=
  match items with
  | [] => rest
  | item :: items => ',' :: compactOnto item (compactItemsOnto items rest)

/-- The fields after the first, each behind a comma. -/
def compactFieldsOnto (fields : List (String × Document)) (rest : List Char) : List Char :=
  match fields with
  | [] => rest
  | (key, value) :: fields =>
    ',' :: quoteOnto key (':' :: compactOnto value (compactFieldsOnto fields rest))

end

/-- The compact text of a document. -/
def compact (document : Document) : String := String.ofList (document.compactOnto [])

theorem compact_object_ne_empty (fields : Fields) : (object fields).compact ≠ "" := by
  intro h
  have hchars : (object fields).compactOnto [] = [] := by
    simpa [compact] using congrArg String.toList h
  cases fields <;> simp [compactOnto] at hchars

/-- A new line that starts at the given level, in front of `rest`. -/
def lineOnto (level : Nat) (rest : List Char) : List Char :=
  '\n' :: List.replicate (2 * level) ' ' ++ rest

mutual

/-- The indented text of a document whose closing bracket stands at `level`. -/
def prettyOnto (document : Document) (level : Nat) (rest : List Char) : List Char :=
  match document with
  | .null => nullText ++ rest
  | .boolean b => booleanText b ++ rest
  | .number n => numberText n ++ rest
  | .string s => quoteOnto s rest
  | .array [] => '[' :: ']' :: rest
  | .array (item :: items) =>
    '[' :: lineOnto (level + 1) (prettyOnto item (level + 1)
      (prettyItemsOnto items level (lineOnto level (']' :: rest))))
  | .object [] => '\x7b' :: '\x7d' :: rest
  | .object ((key, value) :: fields) =>
    '\x7b' :: lineOnto (level + 1) (quoteOnto key (':' :: ' ' :: prettyOnto value (level + 1)
      (prettyFieldsOnto fields level (lineOnto level ('\x7d' :: rest)))))

/-- The items after the first, each behind a comma and on its own line. -/
def prettyItemsOnto (items : List Document) (level : Nat) (rest : List Char) : List Char :=
  match items with
  | [] => rest
  | item :: items =>
    ',' :: lineOnto (level + 1) (prettyOnto item (level + 1) (prettyItemsOnto items level rest))

/-- The fields after the first, each behind a comma and on its own line. -/
def prettyFieldsOnto (fields : List (String × Document)) (level : Nat) (rest : List Char) :
    List Char :=
  match fields with
  | [] => rest
  | (key, value) :: fields =>
    ',' :: lineOnto (level + 1) (quoteOnto key (':' :: ' ' :: prettyOnto value (level + 1)
      (prettyFieldsOnto fields level rest)))

end

/-- The indented text of a document. -/
def pretty (document : Document) : String := String.ofList (document.prettyOnto 0 [])

end AggQuery.Document
