import AggQuery.Document.Lexeme

/-!
# Reading documents

`Document.parse` reads a text as one document, without a limit on nesting. A key that is
given twice in an object keeps its first place and its last value.

## Implementation notes

The fuel is the length of the text, which bounds the number of lexemes: every call of a
reader that is not the last one has taken at least one character.
-/

namespace AggQuery.Document

open Lexeme

mutual

/-- The value at the start of a text. -/
def readValue (fuel : Nat) (text : List Char) : Except TextFault (Document × List Char) :=
  match fuel with
  | 0 => .error .malformed
  | fuel + 1 =>
    match skipBlanks text with
    | [] => .error .truncated
    | c :: rest =>
      if c = '"' then (readString [] rest).map fun (s, rest) => (.string s, rest)
      else if c = '[' then
        match skipBlanks rest with
        | ']' :: rest => .ok (.array [], rest)
        | _ => readItems fuel [] rest
      else if c = '\x7b' then
        match skipBlanks rest with
        | '\x7d' :: rest => .ok (.object [], rest)
        | _ => readFields fuel [] rest
      else if c = 'n' then (word ['u', 'l', 'l'] rest).map fun rest => (.null, rest)
      else if c = 't' then (word ['r', 'u', 'e'] rest).map fun rest => (.boolean true, rest)
      else if c = 'f' then
        (word ['a', 'l', 's', 'e'] rest).map fun rest => (.boolean false, rest)
      else if c = '-' ∨ c.isDigit then
        (readNumber (c :: rest)).map fun (n, rest) => (.number n, rest)
      else .error .malformed

/-- The items of an array from one item on; `acc` holds those before, reversed. -/
def readItems (fuel : Nat) (acc : List Document) (text : List Char) :
    Except TextFault (Document × List Char) :=
  match fuel with
  | 0 => .error .malformed
  | fuel + 1 =>
    match readValue fuel text with
    | .error fault => .error fault
    | .ok (item, rest) =>
      match skipBlanks rest with
      | [] => .error .truncated
      | c :: rest =>
        if c = ']' then .ok (.array (item :: acc).reverse, rest)
        else if c = ',' then readItems fuel (item :: acc) rest
        else .error .malformed

/-- The fields of an object from one key on; `acc` holds those before. -/
def readFields (fuel : Nat) (acc : Fields) (text : List Char) :
    Except TextFault (Document × List Char) :=
  match fuel with
  | 0 => .error .malformed
  | fuel + 1 =>
    match skipBlanks text with
    | [] => .error .truncated
    | c :: rest =>
      if c = '"' then
        match readString [] rest with
        | .error fault => .error fault
        | .ok (key, rest) =>
          match colon rest with
          | .error fault => .error fault
          | .ok rest =>
            match readValue fuel rest with
            | .error fault => .error fault
            | .ok (value, rest) =>
              match skipBlanks rest with
              | [] => .error .truncated
              | c :: rest =>
                if c = '\x7d' then .ok (.object (Fields.set acc key value), rest)
                else if c = ',' then readFields fuel (Fields.set acc key value) rest
                else .error .malformed
      else .error .malformed

end

/-- The document that a text holds. -/
def parse (text : String) : Except TextFault Document :=
  let characters := text.toList
  match readValue (2 * characters.length + 1) characters with
  | .error fault => .error fault
  | .ok (document, rest) => if (skipBlanks rest).isEmpty then .ok document else .error .malformed

end AggQuery.Document
