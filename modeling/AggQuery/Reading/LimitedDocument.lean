import AggQuery.Reading.OfText

/-!
# Documents from text with limited nesting

A text is read as a document of any kind, with the limit on open objects and arrays that a
query document has. `Document.parse` reads the same texts without the limit.

## Implementation notes

The loops over elements and fields are those of query documents. The reader recurses on the
number of levels that may still be opened, so it needs no other bound.
-/

namespace AggQuery.Document

open Lexeme TextReader

/-- The scalar at the start of a text. -/
def scalarOfText (text : List Char) : Except ReadError (Document × List Char) :=
  match text with
  | [] => truncated
  | c :: rest =>
    if c = '"' then (lexed (readString [] rest)).map fun (s, rest) => (.string s, rest)
    else if c = 'n' then (lexed (word ['u', 'l', 'l'] rest)).map fun rest => (.null, rest)
    else if c = 't' then
      (lexed (word ['r', 'u', 'e'] rest)).map fun rest => (.boolean true, rest)
    else if c = 'f' then
      (lexed (word ['a', 'l', 's', 'e'] rest)).map fun rest => (.boolean false, rest)
    else if c = '-' ∨ c.isDigit then
      (lexed (readNumber (c :: rest))).map fun (n, rest) => (.number n, rest)
    else malformed

/-- A field behind its key, put among the fields before it by a reader of values. -/
def fieldOfText (value : List Char → Except ReadError (Document × List Char)) (fields : Fields)
    (key : String) (text : List Char) : Except ReadError (Fields × List Char) := do
  let (x, rest) ← value (← lexed (colon text))
  .ok (fields.set key x, rest)

/-- The document at the start of a text, where `budget` more levels may be opened. -/
def startOfText (budget : Nat) (text : List Char) : Except ReadError (Document × List Char) :=
  match skipBlanks text with
  | '[' :: rest =>
    match budget with
    | 0 => malformed
    | budget + 1 =>
      (elements (startOfText budget) (rest.length + 1) true [] rest).map
        fun (items, rest) => (.array items, rest)
  | '\x7b' :: rest =>
    match budget with
    | 0 => malformed
    | budget + 1 =>
      (members (fieldOfText (startOfText budget)) (rest.length + 1) true [] rest).map
        fun (fields, rest) => (.object fields, rest)
  | text => scalarOfText text

/-- The document that a text holds, if it nests no deeper than the limit. -/
def ofText (text : String) : Except ReadError Document := do
  let (document, rest) ← startOfText nestingLimit text.toList
  if (skipBlanks rest).isEmpty then .ok document else malformed

end AggQuery.Document
