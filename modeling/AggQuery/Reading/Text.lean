import AggQuery.Reading.Slots

/-!
# Reading values from text

Readers for the parts of a query document that take one pass over the text: a value of the
wrong kind is refused where it stands, before the text behind it is looked at. Values of
unknown keys are skipped without a limit on nesting.

## Implementation notes

A reader maps the remaining text to a value and the text behind it. Readers for arrays and
objects take the reader of an element and are bounded by the length of the text.
-/

namespace AggQuery

namespace TextReader

open Lexeme

def truncated : Except ReadError α := .error (.fault .truncated)

def malformed : Except ReadError α := .error (.fault .malformed)

/-- A shape check inside a reader. -/
def shaped (result : Except ShapeError α) : Except ReadError α := result.mapError .shape

/-- A lexeme inside a reader. -/
def lexed (result : Except TextFault α) : Except ReadError α := result.mapError .fault

/-- The error for a value of the wrong kind. The value is read first, as far as its kind is
told by more than its first character. -/
def mismatch (wanted : String) (text : List Char) : ReadError :=
  let invalid (found : Found) : ReadError := .shape (.invalidType found wanted)
  let after (result : Except TextFault (List Char)) (found : Found) : ReadError :=
    match result with
    | .ok _ => invalid found
    | .error fault => .fault fault
  match text with
  | 'n' :: rest => after (word ['u', 'l', 'l'] rest) .null
  | 't' :: rest => after (word ['r', 'u', 'e'] rest) (.boolean true)
  | 'f' :: rest => after (word ['a', 'l', 's', 'e'] rest) (.boolean false)
  | '"' :: rest =>
    match readString [] rest with
    | .ok (s, _) => invalid (.string s)
    | .error fault => .fault fault
  | '[' :: _ => invalid .sequence
  | '\x7b' :: _ => invalid .map
  | c :: _ =>
    if c = '-' ∨ c.isDigit then
      match readNumber text with
      | .ok (n, _) => invalid n.found
      | .error fault => .fault fault
    else .fault .malformed
  | [] => .fault .malformed

/-- A number, checked further. -/
def number (wanted : String) (check : Number → Except ShapeError α) (text : List Char) :
    Except ReadError (α × List Char) :=
  match skipBlanks text with
  | [] => truncated
  | c :: rest =>
    if c = '-' ∨ c.isDigit then do
      let (n, rest) ← lexed (readNumber (c :: rest))
      let value ← shaped (check n)
      .ok (value, rest)
    else .error (mismatch wanted (c :: rest))

def count (text : List Char) : Except ReadError (UInt64 × List Char) := number "usize" Number.toCount text

def integer (text : List Char) : Except ReadError (Int64 × List Char) := number "i64" Number.toInteger text

def float (text : List Char) : Except ReadError (Binary64 × List Char) := number "f64" (fun n => .ok n.toFloat) text

/-- A string. -/
def string (wanted : String) (text : List Char) : Except ReadError (String × List Char) :=
  match skipBlanks text with
  | [] => truncated
  | '"' :: rest => lexed (readString [] rest)
  | text => .error (mismatch wanted text)

/-- A truth value. -/
def boolean (text : List Char) : Except ReadError (Bool × List Char) :=
  match skipBlanks text with
  | [] => truncated
  | 't' :: rest => do .ok (true, ← lexed (word ['r', 'u', 'e'] rest))
  | 'f' :: rest => do .ok (false, ← lexed (word ['a', 'l', 's', 'e'] rest))
  | text => .error (mismatch "a boolean" text)

/-- A null. -/
def unit (text : List Char) : Except ReadError (Unit × List Char) :=
  match skipBlanks text with
  | [] => truncated
  | 'n' :: rest => do .ok ((), ← lexed (word ['u', 'l', 'l'] rest))
  | text => .error (mismatch "unit" text)

/-- The start of the next element of an array, or nothing before its closing bracket. -/
def nextElement (first : Bool) (text : List Char) : Except ReadError (Option (List Char)) :=
  match skipBlanks text with
  | [] => truncated
  | c :: rest =>
    if c = ']' then .ok none
    else if first then .ok (some (c :: rest))
    else if c = ',' then
      match skipBlanks rest with
      | [] => truncated
      | ']' :: _ => malformed
      | rest => .ok (some rest)
    else malformed

/-- The text after the closing bracket of an array with no element left to read. -/
def endOfArray (text : List Char) : Except ReadError (List Char) :=
  match skipBlanks text with
  | [] => truncated
  | ']' :: rest => .ok rest
  | _ => malformed

/-- The remaining elements of an array, and the text after its closing bracket. -/
def elements (element : List Char → Except ReadError (α × List Char)) (fuel : Nat) (first : Bool) (acc : List α)
    (text : List Char) : Except ReadError (List α × List Char) :=
  match fuel with
  | 0 => malformed
  | fuel + 1 => do
    match ← nextElement first text with
    | none => .ok (acc.reverse, ← endOfArray text)
    | some text =>
      let (x, rest) ← element text
      elements element fuel false (x :: acc) rest

/-- The next key of an object and the text behind it, or nothing at its closing brace,
with the text after the brace. -/
def nextKey (first : Bool) (text : List Char) : Except ReadError (Option String × List Char) :=
  match skipBlanks text with
  | [] => truncated
  | c :: rest =>
    if c = '\x7d' then .ok (none, rest)
    else if first then key (c :: rest)
    else if c = ',' then key (skipBlanks rest)
    else malformed
where
  /-- The key at the start of a text. -/
  key (text : List Char) : Except ReadError (Option String × List Char) :=
    match text with
    | [] => truncated
    | '"' :: rest => do
      let (name, rest) ← lexed (readString [] rest)
      .ok (some name, rest)
    | _ => malformed

/-- The remaining fields of an object, each taken into the values read so far; `field` gets
a key and the text behind it, from the colon on. -/
def members (field : σ → String → List Char → Except ReadError (σ × List Char)) (fuel : Nat) (first : Bool) (slots : σ)
    (text : List Char) : Except ReadError (σ × List Char) :=
  match fuel with
  | 0 => malformed
  | fuel + 1 => do
    match ← nextKey first text with
    | (none, rest) => .ok (slots, rest)
    | (some key, rest) =>
      let (slots, rest) ← field slots key rest
      members field fuel false slots rest

/-- Take a value behind a colon into the values read so far; `given` says that the field
has been read before. -/
def member (given : Bool) (name : String) (value : List Char → Except ReadError (α × List Char)) (put : α → σ)
    (text : List Char) : Except ReadError (σ × List Char) :=
  if given then .error (.shape (.duplicateField name))
  else do
    let (x, rest) ← value (← lexed (colon text))
    .ok (put x, rest)

/-- Where a skipped value has got to inside its innermost open bracket. -/
inductive SkipState where
  /-- A value must start. -/
  | value
  /-- The bracket has just been opened. -/
  | opened
  /-- A value has just ended. -/
  | ended
deriving DecidableEq, Inhabited, Repr

/-- The text after a scalar. -/
def skipScalar (text : List Char) : Except TextFault (List Char) :=
  match text with
  | '"' :: rest => skipString rest
  | 'n' :: rest => word ['u', 'l', 'l'] rest
  | 't' :: rest => word ['r', 'u', 'e'] rest
  | 'f' :: rest => word ['a', 'l', 's', 'e'] rest
  | c :: _ => if c = '-' ∨ c.isDigit then skipNumber text else .error .malformed
  | [] => .error .truncated

/-- The text after a value, from the inside of some open brackets on, innermost first. -/
def skipFrom (fuel : Nat) (brackets : List Char) (state : SkipState) (text : List Char) :
    Except ReadError (List Char) :=
  match fuel with
  | 0 => malformed
  | fuel + 1 =>
    if state = .value then
      match skipBlanks text with
      | [] => truncated
      | c :: rest =>
        if c = '[' ∨ c = '\x7b' then skipFrom fuel (c :: brackets) .opened rest
        else
          match skipScalar (c :: rest) with
          | .error fault => .error (.fault fault)
          | .ok rest => skipFrom fuel brackets .ended rest
    else
      match brackets with
      | [] => .ok text
      | bracket :: outer =>
        match skipBlanks text with
        | [] => truncated
        | c :: rest =>
          if (c = ']' ∧ bracket = '[') ∨ (c = '\x7d' ∧ bracket = '\x7b') then
            skipFrom fuel outer .ended rest
          else if state = .ended ∧ c ≠ ',' then malformed
          else
            let text := if state = .ended then rest else c :: rest
            if bracket = '[' then skipFrom fuel brackets .value text
            else
              match skipBlanks text with
              | [] => truncated
              | '"' :: rest =>
                match skipString rest with
                | .error fault => .error (.fault fault)
                | .ok rest =>
                  match colon rest with
                  | .error fault => .error (.fault fault)
                  | .ok rest => skipFrom fuel brackets .value rest
              | _ => malformed

/-- The text after a value of any kind. -/
def skipValue (text : List Char) : Except ReadError (List Char) :=
  skipFrom (2 * text.length + 2) [] .value text

/-- The text after a colon and a value of any kind, with nothing taken from it. -/
def ignored (slots : σ) (text : List Char) : Except ReadError (σ × List Char) := do
  let rest ← lexed (colon text)
  .ok (slots, ← skipValue rest)

/-- The start of a variant: its name and the text behind it where it is a string, and the
text after the brace where it is an object. -/
def variantStart (text : List Char) : Except ReadError (Option String × List Char) :=
  match skipBlanks text with
  | [] => truncated
  | '"' :: rest => do
    let (name, rest) ← lexed (readString [] rest)
    .ok (some name, rest)
  | '\x7b' :: rest => .ok (none, rest)
  | _ => malformed

/-- The variant that the only key of an object names, and the text behind the colon. -/
def variantKey (ofName : String → Except ShapeError α) (text : List Char) : Except ReadError (α × List Char) := do
  let (name, rest) ← string "variant identifier" text
  let variant ← shaped (ofName name)
  .ok (variant, ← lexed (colon rest))

/-- A payload and the closing brace behind it. -/
def closed (payload : Except ReadError (α × List Char)) : Except ReadError (α × List Char) := do
  let (x, rest) ← payload
  match skipBlanks rest with
  | [] => truncated
  | '\x7d' :: rest => .ok (x, rest)
  | _ => malformed

end TextReader

end AggQuery
