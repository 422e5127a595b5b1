/-!
# Places in a YAML text

A cursor is the remaining text with its place: the number of characters before it, and its
line and column. Carriage return, line feed, both in a row, next line and the two Unicode
separators end a line. A text is readable if it holds no character that YAML excludes.
-/

namespace AggQuery.Yaml

/-- Characters that a YAML text may hold. -/
def isReadable (c : Char) : Bool :=
  c = '\t' || c = '\n' || c = '\r' || ('\x20' ≤ c && c ≤ '\x7e') || c = '\x85' ||
    (0xA0 ≤ c.toNat && c.toNat ≤ 0xFFFD) || 0x10000 ≤ c.toNat

def isBlank (c : Char) : Bool := c = ' ' || c = '\t'

def isBreak (c : Char) : Bool :=
  c = '\n' || c = '\r' || c = '\x85' || c = '\u2028' || c = '\u2029'

/-- Characters of anchors, directive names and tag handles. -/
def isWordChar (c : Char) : Bool := c.isAlphanum || c = '_' || c = '-'

/-- Whether a text is at its end or at a line break. -/
def atLineEnd (text : List Char) : Bool :=
  match text with
  | [] => true
  | c :: _ => isBreak c

/-- Whether a text is at its end, at a line break or at a blank. -/
def atGap (text : List Char) : Bool :=
  match text with
  | [] => true
  | c :: _ => isBlank c || isBreak c

/-- A place in a text. -/
structure Cursor where
  rest : List Char
  index : Nat := 0
  line : Nat := 0
  column : Nat := 0
deriving Inhabited

namespace Cursor

/-- The place after `n` characters of the same line. -/
def skip (cursor : Cursor) (n : Nat) : Cursor :=
  { cursor with
    rest := cursor.rest.drop n
    index := cursor.index + n
    column := cursor.column + n }

/-- The place after the leading characters that satisfy a condition. -/
def skipWhile (cursor : Cursor) (p : Char → Bool) : Cursor :=
  cursor.skip (cursor.rest.takeWhile p).length

/-- The place at the start of the next line, after a break of `n` characters. -/
def nextLine (cursor : Cursor) (n : Nat) : Cursor where
  rest := cursor.rest.drop n
  index := cursor.index + n
  line := cursor.line + 1
  column := 0

/-- The line break at a place and the place after it. The separators stand for themselves
and every other break for a line feed. -/
def takeBreak (cursor : Cursor) : Option (Char × Cursor) :=
  match cursor.rest with
  | '\r' :: '\n' :: _ => some ('\n', cursor.nextLine 2)
  | '\r' :: _ => some ('\n', cursor.nextLine 1)
  | '\n' :: _ => some ('\n', cursor.nextLine 1)
  | '\x85' :: _ => some ('\n', cursor.nextLine 1)
  | '\u2028' :: _ => some ('\u2028', cursor.nextLine 1)
  | '\u2029' :: _ => some ('\u2029', cursor.nextLine 1)
  | _ => none

/-- The place after a line break, if there is one. -/
def skipBreak (cursor : Cursor) : Cursor :=
  match cursor.takeBreak with
  | some (_, next) => next
  | none => cursor

/-- Whether a document marker, `---` or `...`, stands at a place. -/
def atMarker (cursor : Cursor) : Bool :=
  cursor.column = 0 &&
    match cursor.rest with
    | '-' :: '-' :: '-' :: rest => atGap rest
    | '.' :: '.' :: '.' :: rest => atGap rest
    | _ => false

end Cursor

end AggQuery.Yaml
