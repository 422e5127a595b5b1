import AggQuery.Document.Lexeme
import AggQuery.Text.Shown

/-!
# Strings of a settings text

A string has four forms: basic and literal, each on one line or on several. Basic strings
have escapes, literal strings stand for themselves. `write` takes the first form that needs
no escape, and else a basic string; `read` reads all four.

## Implementation notes

A form on several lines is opened and closed by three quotes. Up to two more quotes may
stand in front of the closing three. A line break right behind the opening quotes is not
part of the string.
-/

namespace AggQuery.Toml.Quoted

/-- Controls other than the line feed count as such in every form. -/
def isControl (c : Char) : Bool := (c.toNat < 32 && c ≠ '\n') || c = '\x7f'

/-- Characters that strings and comments may hold as they stand; a line break is none. -/
def isPlain (c : Char) : Bool := c = '\t' || (32 ≤ c.toNat && c ≠ '\x7f')

/-- The greatest number of quotes in a row; `run` is the length of the current row. -/
def longestRun (quote : Char) (run best : Nat) (text : List Char) : Nat :=
  match text with
  | [] => best
  | c :: rest =>
    if c = quote then longestRun quote (run + 1) (max best (run + 1)) rest
    else longestRun quote 0 best rest

/-- One hexadecimal digit, upper case. -/
def upperHex (n : Nat) : Char :=
  if n < 10 then Char.ofNat (48 + n) else Char.ofNat (55 + n)

/-- An escape for a control character. -/
def controlEscape (c : Char) : List Char :=
  if c = '\x08' then ['\\', 'b']
  else if c = '\t' then ['\\', 't']
  else if c = '\x0c' then ['\\', 'f']
  else if c = '\r' then ['\\', 'r']
  else
    let n := c.toNat
    ['\\', 'u', upperHex (n / 4096), upperHex (n / 256 % 16), upperHex (n / 16 % 16),
      upperHex (n % 16)]

/-- The body of a basic string. At most `allowed` quotes may stand in a row; the next one
is escaped. `run` is the number of quotes in front of the text. -/
def escapeBody (allowed run : Nat) (text : List Char) : List Char :=
  match text with
  | [] => []
  | c :: rest =>
    if c = '"' then
      if run < allowed then '"' :: escapeBody allowed (run + 1) rest
      else '\\' :: '"' :: escapeBody allowed 0 rest
    else if c = '\\' then '\\' :: '\\' :: escapeBody allowed 0 rest
    else if isControl c then controlEscape c ++ escapeBody allowed 0 rest
    else c :: escapeBody allowed 0 rest

/-- Three quotes in front of and behind a text; a text with a line break gets one more in
front of it. -/
def tripled (quote : Char) (hasBreak : Bool) (body : List Char) : List Char :=
  [quote, quote, quote] ++ (if hasBreak then ['\n'] else []) ++ body ++ [quote, quote, quote]

/-- A string in the first form that fits it. -/
def write (text : List Char) : List Char :=
  let hasBreak := text.contains '\n'
  let hasControl := text.any isControl
  let onLine := !hasBreak && !hasControl
  if onLine && !text.contains '"' && !text.contains '\\' then '"' :: text ++ ['"']
  else if onLine && !text.contains '\'' then '\'' :: text ++ ['\'']
  else if !hasControl && !text.contains '\\' && longestRun '"' 0 0 text ≤ 2 then
    tripled '"' hasBreak text
  else if !hasControl && longestRun '\'' 0 0 text ≤ 2 then tripled '\'' hasBreak text
  else if hasBreak then tripled '"' hasBreak (escapeBody 2 0 text)
  else '"' :: escapeBody 0 0 text ++ ['"']

/-- The character with a code point, if there is one. -/
def scalar? (n : Nat) : Option Char :=
  if n < 0xD800 ∨ (0xDFFF < n ∧ n ≤ 0x10FFFF) then some (Char.ofNat n) else none

/-- The character of an escape of one letter. -/
def escaped? (c : Char) : Option Char :=
  if c = '"' ∨ c = '\\' then some c
  else if c = 'b' then some '\x08'
  else if c = 't' then some '\t'
  else if c = 'n' then some '\n'
  else if c = 'f' then some '\x0c'
  else if c = 'r' then some '\r'
  else none

/-- The character that four hexadecimal digits stand for. -/
def shortCode? (a b c d : Char) : Option Char :=
  match Lexeme.hexUnit? a b c d with
  | some n => scalar? n
  | none => none

/-- The character that eight hexadecimal digits stand for. -/
def longCode? (a b c d e f g h : Char) : Option Char :=
  match Lexeme.hexUnit? a b c d, Lexeme.hexUnit? e f g h with
  | some high, some low => scalar? (65536 * high + low)
  | _, _ => none

/-- A basic string on one line, from behind its opening quote on; `acc` holds what was
read, reversed. -/
def readBasic (acc : List Char) (text : List Char) : Option (List Char × List Char) :=
  match text with
  | [] => none
  | '"' :: rest => some (acc.reverse, rest)
  | '\\' :: rest =>
    match rest with
    | 'u' :: a :: b :: c :: d :: rest =>
      match shortCode? a b c d with
      | some x => readBasic (x :: acc) rest
      | none => none
    | 'U' :: a :: b :: c :: d :: e :: f :: g :: h :: rest =>
      match longCode? a b c d e f g h with
      | some x => readBasic (x :: acc) rest
      | none => none
    | c :: rest =>
      match escaped? c with
      | some x => readBasic (x :: acc) rest
      | none => none
    | [] => none
  | c :: rest => if isPlain c then readBasic (c :: acc) rest else none

/-- A literal string on one line, from behind its opening quote on. -/
def readLiteral (acc : List Char) (text : List Char) : Option (List Char × List Char) :=
  match text with
  | [] => none
  | '\'' :: rest => some (acc.reverse, rest)
  | c :: rest => if isPlain c then readLiteral (c :: acc) rest else none

/-- Whether a text is a line break after blanks, as behind a backslash at a line's end. -/
def breaksAfterBlanks (text : List Char) : Bool :=
  match text.dropWhile fun c => c = ' ' || c = '\t' with
  | '\n' :: _ => true
  | '\r' :: '\n' :: _ => true
  | _ => false

/-- A basic string on several lines, from behind its opening quotes on. `joining` says
that blanks and line breaks are passed over behind a backslash at a line's end. -/
def readBasicLines (joining : Bool) (acc : List Char) (text : List Char) :
    Option (List Char × List Char) :=
  match text with
  | [] => none
  | '"' :: '"' :: '"' :: '"' :: '"' :: rest => some (('"' :: '"' :: acc).reverse, rest)
  | '"' :: '"' :: '"' :: '"' :: rest => some (('"' :: acc).reverse, rest)
  | '"' :: '"' :: '"' :: rest => some (acc.reverse, rest)
  | '\\' :: rest =>
    if breaksAfterBlanks rest then readBasicLines true acc rest
    else
      match rest with
      | 'u' :: a :: b :: c :: d :: rest =>
        match shortCode? a b c d with
        | some x => readBasicLines false (x :: acc) rest
        | none => none
      | 'U' :: a :: b :: c :: d :: e :: f :: g :: h :: rest =>
        match longCode? a b c d e f g h with
        | some x => readBasicLines false (x :: acc) rest
        | none => none
      | c :: rest =>
        match escaped? c with
        | some x => readBasicLines false (x :: acc) rest
        | none => none
      | [] => none
  | '\r' :: '\n' :: rest => readBasicLines joining (if joining then acc else '\n' :: acc) rest
  | c :: rest =>
    if c = '\n' ∨ (joining ∧ (c = ' ' ∨ c = '\t')) then
      readBasicLines joining (if joining then acc else c :: acc) rest
    else if isPlain c then readBasicLines false (c :: acc) rest
    else none

/-- A literal string on several lines, from behind its opening quotes on. -/
def readLiteralLines (acc : List Char) (text : List Char) : Option (List Char × List Char) :=
  match text with
  | [] => none
  | '\'' :: '\'' :: '\'' :: '\'' :: '\'' :: rest => some (('\'' :: '\'' :: acc).reverse, rest)
  | '\'' :: '\'' :: '\'' :: '\'' :: rest => some (('\'' :: acc).reverse, rest)
  | '\'' :: '\'' :: '\'' :: rest => some (acc.reverse, rest)
  | '\r' :: '\n' :: rest => readLiteralLines ('\n' :: acc) rest
  | c :: rest =>
    if c = '\n' ∨ isPlain c then readLiteralLines (c :: acc) rest else none

/-- A text without the line break at its start. -/
def dropFirstBreak (text : List Char) : List Char :=
  match text with
  | '\n' :: rest => rest
  | '\r' :: '\n' :: rest => rest
  | _ => text

/-- A string in any of the four forms. -/
def read (text : List Char) : Option (List Char × List Char) :=
  match text with
  | '"' :: '"' :: '"' :: rest => readBasicLines false [] (dropFirstBreak rest)
  | '"' :: rest => readBasic [] rest
  | '\'' :: '\'' :: '\'' :: rest => readLiteralLines [] (dropFirstBreak rest)
  | '\'' :: rest => readLiteral [] rest
  | _ => none

/-- A string on one line, as keys are written. -/
def readOnLine (text : List Char) : Option (List Char × List Char) :=
  match text with
  | '"' :: rest => readBasic [] rest
  | '\'' :: rest => readLiteral [] rest
  | _ => none

end AggQuery.Toml.Quoted
