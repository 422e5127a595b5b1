import AggQuery.Toml.Number
import AggQuery.Toml.Quoted
import AggQuery.Toml.Value

/-!
# Reading settings texts

`Toml.parse` reads a text line by line: headers open tables, and lines with a key put
values into the table that is open. No key may be given twice, no table may have two
headers, and a table in braces or one that dotted keys brought about may not be added to
by a header.

## Implementation notes

The open table is kept apart from the others and put in its place when the next header or
the end of the text comes; a table that had been brought about before moves to the end
then. `none` is a text that is not well formed. The loops are bounded by the length of the
text, and arrays and braces may nest at most `nestingLimit` deep.
-/

namespace AggQuery.Toml

/-- The number of arrays and tables in braces that may be open at once. -/
def nestingLimit : Nat := 79

def isSpace (c : Char) : Bool := c = ' ' || c = '\t'

/-- Characters of a key without quotes. -/
def isKeyChar (c : Char) : Bool := c.isAlphanum || c = '_' || c = '-'

def skipSpaces (text : List Char) : List Char := text.dropWhile isSpace

/-- The text behind a line break. -/
def lineBreak (text : List Char) : Option (List Char) :=
  match text with
  | '\n' :: rest => some rest
  | '\r' :: '\n' :: rest => some rest
  | _ => none

/-- The text behind a comment that may stand at its start. -/
def skipComment (text : List Char) : List Char :=
  match text with
  | '#' :: rest => rest.dropWhile Quoted.isPlain
  | _ => text

/-- The text of the next line, if only blanks and a comment are left of this one. -/
def endOfLine (text : List Char) : Option (List Char) :=
  match skipComment (skipSpaces text) with
  | [] => some []
  | rest => lineBreak rest

/-- The text behind blanks, comments and line breaks. -/
def skipGaps (fuel : Nat) (text : List Char) : List Char :=
  match fuel with
  | 0 => text
  | fuel + 1 =>
    let rest := skipComment (skipSpaces text)
    match lineBreak rest with
    | some rest => skipGaps fuel rest
    | none => rest

/-- One part of a key. -/
def keyPart (text : List Char) : Option (List Char × List Char) :=
  match Quoted.readOnLine text with
  | some result => some result
  | none =>
    let word := text.takeWhile isKeyChar
    if word.isEmpty then none else some (word, text.dropWhile isKeyChar)

/-- The parts of a key with points between them, and blanks around each. -/
def keyParts (fuel : Nat) (text : List Char) : Option (List (List Char) × List Char) :=
  match fuel with
  | 0 => none
  | fuel + 1 => do
    let (part, rest) ← keyPart (skipSpaces text)
    match skipSpaces rest with
    | '.' :: rest =>
      let (parts, rest) ← keyParts fuel rest
      some (part :: parts, rest)
    | rest => some ([part], rest)

/-- A key of fewer than eighty parts. -/
def key (text : List Char) : Option (List (List Char) × List Char) := do
  let (parts, rest) ← keyParts (text.length + 1) text
  if parts.length ≤ nestingLimit then some (parts, rest) else none

/-- Apply a change to the table at a path below a table. Tables that are missing are
brought about. With `dotted` a table that has a header of its own may not be entered; a
table in braces may be entered only from the braces around it. -/
def changeAt (inline dotted : Bool) (change : Origin → Entries → Option Entries)
    (origin : Origin) (entries : Entries) (path : List (List Char)) : Option Entries :=
  match path with
  | [] => change origin entries
  | key :: rest =>
    match entries.lookup key with
    | none => do
      let fresh : Origin := { implicit := true, dotted, inline }
      let below ← changeAt inline dotted change fresh [] rest
      some (Entries.set entries key (.table fresh below))
    | some (.table below fields) =>
      if below.inline ≠ inline ∨ (dotted ∧ !below.implicit) then none
      else do
        let fields ← changeAt inline dotted change below fields rest
        some (Entries.set entries key (.table below fields))
    | some (.tables elements) =>
      match elements.getLast? with
      | some (.table below fields) => do
        let fields ← changeAt inline dotted change below fields rest
        some (Entries.set entries key (.tables (elements.dropLast ++ [.table below fields])))
      | _ => none
    | some _ => none

/-- Put a value at a dotted key below a table. -/
def insertDotted (inline : Bool) (origin : Origin) (entries : Entries)
    (path : List (List Char)) (value : Value) : Option Entries :=
  match path.getLast? with
  | none => none
  | some last =>
    let parents := path.dropLast
    changeAt inline true (fun target fields =>
      if target.dotted = parents.isEmpty ∨ (fields.lookup last).isSome then none
      else some (fields ++ [(last, value)])) origin entries parents

mutual

/-- The value at the start of a text, where `budget` more brackets may be opened. -/
def readValue (fuel budget : Nat) (text : List Char) : Option (Value × List Char) :=
  match fuel with
  | 0 => none
  | fuel + 1 =>
    match text with
    | [] => none
    | '[' :: rest => if budget = 0 then none else readItems fuel (budget - 1) [] rest
    | '\x7b' :: rest =>
      if budget = 0 then none
      else
        match skipSpaces rest with
        | '\x7d' :: rest => some (.table { inline := true } [], rest)
        | rest => readPairs fuel (budget - 1) [] rest
    | 't' :: 'r' :: 'u' :: 'e' :: rest => some (.boolean true, rest)
    | 'f' :: 'a' :: 'l' :: 's' :: 'e' :: rest => some (.boolean false, rest)
    | c :: _ =>
      if c = '"' ∨ c = '\'' then
        (Quoted.read text).map fun (s, rest) => (.string s, rest)
      else
        match dateTime text with
        | some rest => some (.dateTime, rest)
        | none =>
          match float text with
          | some (x, rest) => some (.float x, rest)
          | none => (integer text).map fun (n, rest) => (.integer n, rest)

/-- The remaining items of an array; `acc` holds those before, reversed. -/
def readItems (fuel budget : Nat) (acc : List Value) (text : List Char) :
    Option (Value × List Char) :=
  match fuel with
  | 0 => none
  | fuel + 1 =>
    match skipGaps fuel text with
    | ']' :: rest => some (.array acc.reverse, rest)
    | text => do
      let (item, rest) ← readValue fuel budget text
      match skipGaps fuel rest with
      | ',' :: rest => readItems fuel budget (item :: acc) rest
      | ']' :: rest => some (.array (item :: acc).reverse, rest)
      | _ => none

/-- The remaining pairs of a table in braces. -/
def readPairs (fuel budget : Nat) (entries : Entries) (text : List Char) :
    Option (Value × List Char) :=
  match fuel with
  | 0 => none
  | fuel + 1 => do
    let (path, rest) ← key text
    let rest ← expectChar '=' rest
    let (value, rest) ← readValue fuel budget (skipSpaces rest)
    let origin : Origin := { inline := true }
    let entries ← insertDotted true origin entries path value
    match skipSpaces rest with
    | ',' :: rest => readPairs fuel budget entries rest
    | '\x7d' :: rest => some (.table origin entries, rest)
    | _ => none

end

/-- The tables read so far and the one that is open. -/
structure Assembly where
  root : Entries := []
  /-- The entries of the open table. -/
  current : Entries := []
  /-- The header of the open table; empty in front of the first header. -/
  path : List (List Char) := []
  /-- Whether the open table is an element of an array of tables. -/
  isElement : Bool := false
deriving Inhabited

namespace Assembly

/-- Put the open table in its place. -/
def close (a : Assembly) : Option Entries :=
  match a.path.getLast? with
  | none => some a.current
  | some last =>
    changeAt false false (fun _ fields =>
      let opened : Value := .table {} a.current
      if a.isElement then
        match fields.lookup last with
        | some (.tables elements) => some (Entries.set fields last (.tables (elements ++ [opened])))
        | none => some (fields ++ [(last, .tables [opened])])
        | some _ => none
      else
        match fields.lookup last with
        | none => some (fields ++ [(last, opened)])
        | some (.table origin _) =>
          if origin.implicit && !origin.inline then some (Entries.set fields last opened)
          else none
        | some _ => none) {} a.root a.path.dropLast

/-- Open the table of a header. A table that longer headers have brought about is opened
as it is. -/
def openTable (a : Assembly) (path : List (List Char)) : Option Assembly := do
  let root ← a.close
  let last ← path.getLast?
  let parents := path.dropLast
  let check (fields : Entries) : Option (Option Entries) :=
    match fields.lookup last with
    | none => some none
    | some (.table origin entries) =>
      if origin.implicit && !origin.dotted && !origin.inline then some (some entries) else none
    | some _ => none
  let root ← changeAt false false (fun _ fields => (check fields).map fun _ => fields)
    {} root parents
  let before := entriesAt root parents
  let current := ((check before).bind id).getD []
  let root ← changeAt false false (fun _ fields => some (Entries.erase fields last))
    {} root parents
  some { root, current, path, isElement := false }
where
  /-- The entries of the table at a path, those of the last element for an array. -/
  entriesAt (entries : Entries) (path : List (List Char)) : Entries :=
    match path with
    | [] => entries
    | key :: rest =>
      match entries.lookup key with
      | some (.table _ fields) => entriesAt fields rest
      | some (.tables elements) =>
        match elements.getLast? with
        | some (.table _ fields) => entriesAt fields rest
        | _ => []
      | _ => []

/-- Open a new element of the array of tables of a header. -/
def openElement (a : Assembly) (path : List (List Char)) : Option Assembly := do
  let root ← a.close
  let last ← path.getLast?
  let root ← changeAt false false (fun _ fields =>
    match fields.lookup last with
    | none => some (fields ++ [(last, .tables [])])
    | some (.tables _) => some fields
    | some _ => none) {} root path.dropLast
  some { root, current := [], path, isElement := true }

/-- Put a value into the open table. -/
def insert (a : Assembly) (path : List (List Char)) (value : Value) : Option Assembly := do
  some { a with current := ← insertDotted false {} a.current path value }

/-- A header, from behind its first bracket on. -/
def readHeader (a : Assembly) (text : List Char) : Option (Assembly × List Char) := do
  match text with
  | '[' :: rest =>
    let (path, rest) ← key rest
    let rest ← expectChar ']' rest
    let rest ← expectChar ']' rest
    let rest ← endOfLine rest
    some (← a.openElement path, rest)
  | _ =>
    let (path, rest) ← key text
    let rest ← expectChar ']' rest
    let rest ← endOfLine rest
    some (← a.openTable path, rest)

/-- A line with a key. -/
def readPair (a : Assembly) (text : List Char) : Option (Assembly × List Char) := do
  let (path, rest) ← key text
  let rest ← expectChar '=' rest
  let (value, rest) ← readValue (2 * text.length + 2) nestingLimit (skipSpaces rest)
  let rest ← endOfLine rest
  some (← a.insert path value, rest)

/-- The remaining lines of a text. -/
def readLines (fuel : Nat) (a : Assembly) (text : List Char) : Option Entries :=
  match fuel with
  | 0 => none
  | fuel + 1 =>
    match skipSpaces text with
    | [] => a.close
    | c :: rest =>
      if c = '#' ∨ c = '\n' ∨ c = '\r' then
        match endOfLine (c :: rest) with
        | some rest => readLines fuel a rest
        | none => none
      else if c = '[' then
        match a.readHeader rest with
        | some (a, rest) => readLines fuel a rest
        | none => none
      else
        match a.readPair (c :: rest) with
        | some (a, rest) => readLines fuel a rest
        | none => none

end Assembly

/-- The root table of a text. A byte order mark in front of it is passed over. -/
def parse (text : String) : Option Entries :=
  let characters := text.toList
  let body := if characters.head? = some '\ufeff' then characters.drop 1 else characters
  Assembly.readLines (body.length + 1) {} body

end AggQuery.Toml
