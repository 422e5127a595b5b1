import AggQuery.Document.Lexeme

/-!
# Numbers and dates of a settings text

An integer is decimal, with a sign, or hexadecimal, octal or binary, without one. A number
with a point or an exponent is floating point, as are `inf` and `nan`. Single underscores
may stand between digits. Dates and times are checked and otherwise not looked at.
-/

namespace AggQuery.Toml

/-- Digits with single underscores between them: the digits and the text behind them. There
must be a digit, and one behind each underscore. -/
def digitRun (isDigit : Char → Bool) (text : List Char) : Option (List Char × List Char) :=
  match text with
  | [] => none
  | c :: rest => if isDigit c then go [c] rest else none
where
  /-- The digits behind those in `acc`. -/
  go (acc : List Char) (text : List Char) : Option (List Char × List Char) :=
    match text with
    | '_' :: c :: rest => if isDigit c then go (c :: acc) rest else none
    | '_' :: [] => none
    | c :: rest => if isDigit c then go (c :: acc) rest else some (acc.reverse, c :: rest)
    | [] => some (acc.reverse, [])

/-- The value of digits in a base. -/
def valueIn (base : Nat) (digits : List Char) : Nat :=
  digits.foldl (fun n c => base * n + (Lexeme.hexValue? c).getD 0) 0

def isHexDigit (c : Char) : Bool := (Lexeme.hexValue? c).isSome

def isOctalDigit (c : Char) : Bool := '0' ≤ c && c ≤ '7'

def isBinaryDigit (c : Char) : Bool := c = '0' || c = '1'

/-- A sign and the text behind it. -/
def sign (text : List Char) : Bool × List Char :=
  match text with
  | '-' :: rest => (true, rest)
  | '+' :: rest => (false, rest)
  | _ => (false, text)

/-- Decimal digits of an integer part: a single zero, or digits that start with another. -/
def wholeDigits (text : List Char) : Option (List Char × List Char) :=
  match text with
  | '0' :: rest => some (['0'], rest)
  | _ => digitRun Char.isDigit text

/-- An integer of 64 bits. -/
def integer (text : List Char) : Option (Int × List Char) :=
  let based (base : Nat) (isDigit : Char → Bool) (rest : List Char) : Option (Int × List Char) :=
    match digitRun isDigit rest with
    | none => none
    | some (digits, rest) =>
      let n := valueIn base digits
      if n < 1 <<< 63 then some (n, rest) else none
  match text with
  | '0' :: 'x' :: rest => based 16 isHexDigit rest
  | '0' :: 'o' :: rest => based 8 isOctalDigit rest
  | '0' :: 'b' :: rest => based 2 isBinaryDigit rest
  | _ =>
    let (negative, rest) := sign text
    match wholeDigits rest with
    | none => none
    | some (digits, rest) =>
      let n := Lexeme.digitsValue digits
      if negative then if n ≤ 1 <<< 63 then some (-n, rest) else none
      else if n < 1 <<< 63 then some (n, rest)
      else none

/-- An exponent, from its mark on. -/
def exponent? (text : List Char) : Option (Int × List Char) :=
  match text with
  | c :: rest =>
    if c = 'e' ∨ c = 'E' then
      let (negative, rest) := sign rest
      (digitRun Char.isDigit rest).map fun (digits, rest) =>
        let n : Int := Lexeme.digitsValue digits
        (if negative then -n else n, rest)
    else none
  | [] => none

/-- A floating-point number. One that is too large is refused if it is positive. -/
def float (text : List Char) : Option (Binary64 × List Char) :=
  let (negative, rest) := sign text
  let finish (digits : Nat) (exponent : Int) (rest : List Char) :=
    let x := Binary64.ofDecimal negative digits exponent
    if !x.isFinite && !negative then none else some (x, rest)
  match rest with
  | 'i' :: 'n' :: 'f' :: rest => some (Binary64.infinity negative, rest)
  | 'n' :: 'a' :: 'n' :: rest =>
    some (Binary64.ofMagnitude negative 0x7FF8000000000000, rest)
  | _ =>
    match wholeDigits rest with
    | none => none
    | some (whole, '.' :: rest) =>
      match digitRun Char.isDigit rest with
      | none => none
      | some (places, rest) =>
        let digits := Lexeme.digitsValue (whole ++ places)
        match exponent? rest with
        | some (e, rest) => finish digits (e - places.length) rest
        | none => finish digits (-places.length) rest
    | some (whole, rest) =>
      match exponent? rest with
      | some (e, rest) => finish (Lexeme.digitsValue whole) e rest
      | none => none

/-- A number of exactly `n` digits that lies between two bounds. -/
def fixedDigits (n least greatest : Nat) (text : List Char) : Option (Nat × List Char) :=
  let digits := text.take n
  let value := Lexeme.digitsValue digits
  if digits.length = n ∧ digits.all Char.isDigit ∧ least ≤ value ∧ value ≤ greatest then
    some (value, text.drop n)
  else none

/-- The text behind a character that must stand at its start. -/
def expectChar (c : Char) (text : List Char) : Option (List Char) :=
  match text with
  | d :: rest => if d = c then some rest else none
  | [] => none

/-- The number of days of a month. -/
def daysIn (year month : Nat) : Nat :=
  if month = 2 then
    if year % 4 = 0 ∧ (year % 100 ≠ 0 ∨ year % 400 = 0) then 29 else 28
  else if month = 4 ∨ month = 6 ∨ month = 9 ∨ month = 11 then 30
  else 31

/-- The text behind a date. -/
def date (text : List Char) : Option (List Char) := do
  let (year, text) ← fixedDigits 4 0 9999 text
  let text ← expectChar '-' text
  let (month, text) ← fixedDigits 2 1 12 text
  let text ← expectChar '-' text
  let (_, text) ← fixedDigits 2 1 (daysIn year month) text
  some text

/-- The text behind a time of day. -/
def time (text : List Char) : Option (List Char) := do
  let (_, text) ← fixedDigits 2 0 23 text
  let text ← expectChar ':' text
  let (_, text) ← fixedDigits 2 0 59 text
  let text ← expectChar ':' text
  let (_, text) ← fixedDigits 2 0 60 text
  match text with
  | '.' :: c :: rest => if c.isDigit then some (rest.dropWhile Char.isDigit) else none
  | '.' :: [] => none
  | _ => some text

/-- The text behind an offset from universal time. -/
def timeOffset (text : List Char) : Option (List Char) := do
  match text with
  | 'Z' :: rest => some rest
  | 'z' :: rest => some rest
  | c :: rest =>
    if c = '+' ∨ c = '-' then
      let (_, text) ← fixedDigits 2 0 23 rest
      let text ← expectChar ':' text
      let (_, text) ← fixedDigits 2 0 59 text
      some text
    else none
  | [] => none

/-- The text behind a date, a time, or both with or without an offset. -/
def dateTime (text : List Char) : Option (List Char) :=
  match date text with
  | none => time text
  | some rest =>
    match rest with
    | c :: after =>
      if c = 'T' ∨ c = 't' ∨ c = ' ' then
        match time after with
        | some after => some ((timeOffset after).getD after)
        | none => some rest
      else some rest
    | [] => some rest

end AggQuery.Toml
