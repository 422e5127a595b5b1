import AggQuery.Document.Basic
import AggQuery.Number.Steps

/-!
# Lexemes of document text

Strings, numbers, words and blanks of document text, read from a list of characters. Each
reader returns the rest of the text, or the fault that it met first: the text ends too
early (`truncated`), or it cannot be continued to a document (`malformed`).

## Implementation notes

A string or number can be read or skipped. Skipping checks less: it does not pair the two
halves of a `\u` escape, and it does not look at the size of a number. Of the digits of a
number as many count as fit a 64-bit word.
-/

namespace AggQuery

/-- Why a text is no document. -/
inductive TextFault where
  | truncated
  | malformed
deriving DecidableEq, Inhabited, Repr

namespace Lexeme

/-- The four characters that may stand between lexemes. -/
def isBlank (c : Char) : Bool := c = ' ' || c = '\n' || c = '\t' || c = '\r'

/-- The text after its leading blanks. -/
def skipBlanks (text : List Char) : List Char := text.dropWhile isBlank

/-- The text after a word that must stand at its start. -/
def word (expected text : List Char) : Except TextFault (List Char) :=
  match expected, text with
  | [], rest => .ok rest
  | _ :: _, [] => .error .truncated
  | e :: expected, c :: text => if c = e then word expected text else .error .malformed

/-- The text after a colon that must be its next lexeme. -/
def colon (text : List Char) : Except TextFault (List Char) :=
  match skipBlanks text with
  | [] => .error .truncated
  | c :: rest => if c = ':' then .ok rest else .error .malformed

/-- The value of a hexadecimal digit in either case. -/
def hexValue? (c : Char) : Option Nat :=
  if '0' ≤ c ∧ c ≤ '9' then some (c.toNat - 48)
  else if 'a' ≤ c ∧ c ≤ 'f' then some (c.toNat - 87)
  else if 'A' ≤ c ∧ c ≤ 'F' then some (c.toNat - 55)
  else none

/-- The number that four hexadecimal digits denote. -/
def hexUnit? (a b c d : Char) : Option Nat :=
  match hexValue? a, hexValue? b, hexValue? c, hexValue? d with
  | some a, some b, some c, some d => some (((a * 16 + b) * 16 + c) * 16 + d)
  | _, _, _, _ => none

/-- The character that a backslash and one letter stand for. -/
def escaped? (c : Char) : Option Char :=
  if c = '"' ∨ c = '\\' ∨ c = '/' then some c
  else if c = 'b' then some '\x08'
  else if c = 'f' then some '\x0c'
  else if c = 'n' then some '\n'
  else if c = 'r' then some '\r'
  else if c = 't' then some '\t'
  else none

def isHighSurrogate (unit : Nat) : Bool := 0xD800 ≤ unit && unit ≤ 0xDBFF

def isLowSurrogate (unit : Nat) : Bool := 0xDC00 ≤ unit && unit ≤ 0xDFFF

/-- The character of a pair of surrogates. -/
def surrogatePair (high low : Nat) : Char :=
  Char.ofNat (0x10000 + (high - 0xD800) * 0x400 + (low - 0xDC00))

/-- Whether fewer than four bytes are left, so that no `\u` escape can be complete. -/
def shortOfFour (text : List Char) : Bool :=
  (text.take 4).foldl (fun size c => size + c.utf8Size) 0 < 4

/-- The rest of a string, after its opening quote; `acc` holds what was read, reversed. -/
def readString (acc : List Char) (text : List Char) : Except TextFault (String × List Char) :=
  match text with
  | [] => .error .truncated
  | '"' :: rest => .ok (String.ofList acc.reverse, rest)
  | '\\' :: rest =>
    match rest with
    | [] => .error .truncated
    | 'u' :: rest =>
      if shortOfFour rest then .error .truncated
      else
        match rest with
        | a :: b :: c :: d :: rest =>
          match hexUnit? a b c d with
          | none => .error .malformed
          | some unit =>
            if isLowSurrogate unit then .error .malformed
            else if isHighSurrogate unit then
              match rest with
              | [] => .error .truncated
              | ['\\'] => .error .truncated
              | '\\' :: 'u' :: rest =>
                if shortOfFour rest then .error .truncated
                else
                  match rest with
                  | a :: b :: c :: d :: rest =>
                    match hexUnit? a b c d with
                    | none => .error .malformed
                    | some low =>
                      if isLowSurrogate low then readString (surrogatePair unit low :: acc) rest
                      else .error .malformed
                  | _ => .error .malformed
              | _ => .error .malformed
            else readString (Char.ofNat unit :: acc) rest
        | _ => .error .malformed
    | c :: rest =>
      match escaped? c with
      | none => .error .malformed
      | some e => readString (e :: acc) rest
  | c :: rest => if c.toNat < 32 then .error .malformed else readString (c :: acc) rest

/-- The text after a string, after its opening quote. -/
def skipString (text : List Char) : Except TextFault (List Char) :=
  match text with
  | [] => .error .truncated
  | '"' :: rest => .ok rest
  | '\\' :: rest =>
    match rest with
    | [] => .error .truncated
    | 'u' :: rest =>
      if shortOfFour rest then .error .truncated
      else
        match rest with
        | a :: b :: c :: d :: rest =>
          if (hexUnit? a b c d).isSome then skipString rest else .error .malformed
        | _ => .error .malformed
    | c :: rest => if (escaped? c).isSome then skipString rest else .error .malformed
  | c :: rest => if c.toNat < 32 then .error .malformed else skipString rest

/-- The leading decimal digits of a text. -/
def leadingDigits (text : List Char) : List Char := text.takeWhile Char.isDigit

/-- The text after its leading decimal digits. -/
def afterDigits (text : List Char) : List Char := text.dropWhile Char.isDigit

/-- The number that decimal digits denote. -/
def digitsValue (digits : List Char) : Nat :=
  digits.foldl (fun n c => 10 * n + (c.toNat - 48)) 0

/-- The number that decimal digits denote behind a number, up to the first digit with which it
does not fit a 64-bit word, and how many digits are left out. -/
def significand (n : Nat) (digits : List Char) : Nat × Nat :=
  match digits with
  | [] => (n, 0)
  | c :: rest =>
    let next := 10 * n + (c.toNat - 48)
    if next < UInt64.size then significand next rest else (n, rest.length + 1)

/-- The decimal that counts for digits before and behind a point. Digits that are left out
before the point still count for the size of the number. -/
def kept (whole places : List Char) : Decimal :=
  let before := significand 0 whole
  let behind := significand before.1 places
  ⟨behind.1, before.2 + behind.2 - places.length⟩

/-- A decimal as a number; one too large for a finite word is malformed. -/
def decimal (negative : Bool) (digits : Nat) (exponent : Int) (rest : List Char) :
    Except TextFault (Number × List Char) :=
  match Binary64.ofSteps? digits exponent with
  | some x => .ok (.float (x.withSign negative), rest)
  | none => .error .malformed

/-- An exponent, after its mark, for a decimal with the given digits. -/
def exponentPart (negative : Bool) (digits : Nat) (exponent : Int) (text : List Char) :
    Except TextFault (Number × List Char) :=
  let finish (below : Bool) (text : List Char) :=
    match text with
    | [] => .error .truncated
    | c :: _ =>
      if c.isDigit then
        let e : Int := digitsValue (leadingDigits text)
        decimal negative digits (if below then exponent - e else exponent + e) (afterDigits text)
      else .error .malformed
  match text with
  | '+' :: rest => finish false rest
  | '-' :: rest => finish true rest
  | _ => finish false text

/-- What follows the integer part of a number. -/
def afterInteger (negative : Bool) (whole : List Char) (text : List Char) :
    Except TextFault (Number × List Char) :=
  match text with
  | '.' :: rest =>
    let places := leadingDigits rest
    let d := kept whole places
    match places, afterDigits rest with
    | [], [] => .error .truncated
    | [], _ :: _ => .error .malformed
    | _ :: _, 'e' :: after => exponentPart negative d.digits d.exponent after
    | _ :: _, 'E' :: after => exponentPart negative d.digits d.exponent after
    | _ :: _, after => decimal negative d.digits d.exponent after
  | 'e' :: rest => exponentPart negative (kept whole []).digits (kept whole []).exponent rest
  | 'E' :: rest => exponentPart negative (kept whole []).digits (kept whole []).exponent rest
  | _ =>
    let n := digitsValue whole
    let d := kept whole []
    if negative then
      if n = 0 ∨ 1 <<< 63 < n then decimal true d.digits d.exponent text
      else .ok (.integer (-n), text)
    else if n < UInt64.size then .ok (.integer n, text)
    else decimal false d.digits d.exponent text

/-- A number without its sign. -/
def unsigned (negative : Bool) (text : List Char) : Except TextFault (Number × List Char) :=
  match text with
  | [] => .error .truncated
  | c :: rest =>
    if !c.isDigit then .error .malformed
    else if c = '0' ∧ (leadingDigits rest).isEmpty = false then .error .malformed
    else afterInteger negative (leadingDigits text) (afterDigits text)

/-- A number, from its sign or first digit on. An integer outside the 64-bit ranges and
negative zero are floating point. -/
def readNumber (text : List Char) : Except TextFault (Number × List Char) :=
  match text with
  | '-' :: rest => unsigned true rest
  | _ => unsigned false text

/-- The text after an exponent, after its mark. -/
def skipExponent (text : List Char) : Except TextFault (List Char) :=
  let digits :=
    match text with
    | '+' :: rest => rest
    | '-' :: rest => rest
    | _ => text
  if (leadingDigits digits).isEmpty then .error .malformed else .ok (afterDigits digits)

/-- The text after a number. Only its form is checked. -/
def skipNumber (text : List Char) : Except TextFault (List Char) :=
  let digits :=
    match text with
    | '-' :: rest => rest
    | _ => text
  let whole := leadingDigits digits
  if whole.isEmpty ∨ (whole.head? = some '0' ∧ 1 < whole.length) then .error .malformed
  else
    match afterDigits digits with
    | '.' :: rest =>
      if (leadingDigits rest).isEmpty then .error .malformed
      else
        match afterDigits rest with
        | 'e' :: rest => skipExponent rest
        | 'E' :: rest => skipExponent rest
        | rest => .ok rest
    | 'e' :: rest => skipExponent rest
    | 'E' :: rest => skipExponent rest
    | rest => .ok rest

end Lexeme

end AggQuery
