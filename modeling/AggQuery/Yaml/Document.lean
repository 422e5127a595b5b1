import AggQuery.Document.Basic
import AggQuery.Yaml.Node

/-!
# From YAML to documents

A plain scalar without a tag is null, a truth value, a number or a string, by its form. A
key is the text of its scalar, and of two equal keys the later value counts. Numbers that
are not finite become null.

## Implementation notes

`toDocument` recurses on the number of collections that may still be opened. Aliases are
followed where they stand; their number is limited by the size of the document.
-/

namespace AggQuery.Yaml

/-- Whether decimal digits start with a zero that is not the only one; they are a string. -/
def hasLeadingZero (text : List Char) : Bool :=
  let digits :=
    match text with
    | '-' :: rest => rest
    | '+' :: rest => rest
    | _ => text
  match digits with
  | '0' :: rest => !rest.isEmpty && rest.all Char.isDigit
  | _ => false

/-- The number that digits in a base denote, if there is a digit and all are digits. -/
def numberIn (base : Nat) (digits : List Char) : Option Nat :=
  if digits.isEmpty then none
  else
    digits.foldl (fun acc c =>
      match acc, Lexeme.hexValue? c with
      | some value, some digit => if digit < base then some (base * value + digit) else none
      | _, _ => none) (some 0)

/-- The magnitude of an integer: digits behind a base mark, or decimal digits. -/
def magnitude? (leadingZero : Bool) (text : List Char) : Option Nat :=
  match text with
  | '0' :: 'x' :: digits => numberIn 16 digits
  | '0' :: 'o' :: digits => numberIn 8 digits
  | '0' :: 'b' :: digits => numberIn 2 digits
  | digits => if leadingZero then none else numberIn 10 digits

/-- Whether a scalar is an integer, and which one, if it fits into 64 bits. A number that
needs more than 128 bits is none. -/
inductive IntegerReading where
  | notInteger
  | tooLarge
  | integer (n : Int)
deriving DecidableEq, Inhabited, Repr

/-- The integer that a scalar denotes. -/
def integerOf (text : List Char) : IntegerReading :=
  let zero := hasLeadingZero text
  match text with
  | '-' :: rest =>
    match magnitude? zero rest with
    | none => .notInteger
    | some n =>
      if n ≤ 1 <<< 63 then .integer (-n) else if n ≤ 1 <<< 127 then .tooLarge else .notInteger
  | _ =>
    let digits :=
      match text with
      | '+' :: rest => rest
      | _ => text
    match magnitude? zero digits with
    | none => .notInteger
    | some n =>
      if n < UInt64.size then .integer n else if n < 1 <<< 128 then .tooLarge else .notInteger

/-- The number that decimal text denotes: digits with at most one point, at least one
digit, and an exponent if there is a mark for it. -/
def decimalOf (negative : Bool) (text : List Char) : Option Binary64 :=
  let whole := Lexeme.leadingDigits text
  let rest := Lexeme.afterDigits text
  let (places, rest) :=
    match rest with
    | '.' :: rest => (Lexeme.leadingDigits rest, Lexeme.afterDigits rest)
    | _ => ([], rest)
  let digits := Lexeme.digitsValue (whole ++ places)
  let exponent (e : Int) : Option Binary64 :=
    some (Binary64.ofDecimal negative digits (e - places.length))
  if whole.isEmpty && places.isEmpty then none
  else
    match rest with
    | [] => exponent 0
    | c :: rest =>
      if c = 'e' ∨ c = 'E' then
        let (below, power) :=
          match rest with
          | '-' :: rest => (true, rest)
          | '+' :: rest => (false, rest)
          | _ => (false, rest)
        if power.isEmpty || !power.all Char.isDigit then none
        else
          let e : Int := Lexeme.digitsValue power
          exponent (if below then -e else e)
      else none

/-- The floating-point number that a scalar denotes; `some none` is one that is not finite. -/
def floatOf (text : List Char) : Option (Option Binary64) :=
  let unsigned :=
    match text with
    | '+' :: rest => rest
    | _ => text
  let infinite := [".inf".toList, ".Inf".toList, ".INF".toList]
  let notNumbers := [".nan".toList, ".NaN".toList, ".NAN".toList]
  if infinite.contains unsigned || infinite.contains (text.drop 1) && text.head? == some '-' ||
      notNumbers.contains text then some none
  else
    let result :=
      match text with
      | '-' :: rest => decimalOf true rest
      | _ => decimalOf false unsigned
    match result with
    | some x => if x.isFinite then some (some x) else none
    | none => none

/-- The truth value that a scalar denotes. -/
def booleanOf (text : List Char) : Option Bool :=
  if ["true".toList, "True".toList, "TRUE".toList].contains text then some true
  else if ["false".toList, "False".toList, "FALSE".toList].contains text then some false
  else none

/-- Whether a scalar denotes null. -/
def isNull (text : List Char) : Bool :=
  ["null".toList, "Null".toList, "NULL".toList, ['~']].contains text

/-- A floating-point reading as a document. -/
def floatDocument : Option Binary64 → Document
  | some x => .ofFloat x
  | none => .null

/-- A plain scalar without a tag; `none` is an integer that fits no number. -/
def plainDocument (text : List Char) : Option Document :=
  if text.isEmpty || isNull text then some .null
  else
    match booleanOf text with
    | some b => some (.boolean b)
    | none =>
      match integerOf text with
      | .integer n => some (.ofInt n)
      | .tooLarge => none
      | .notInteger =>
        if hasLeadingZero text then some (.string (String.ofList text))
        else
          match floatOf text with
          | some x => some (floatDocument x)
          | none => some (.string (String.ofList text))

/-- A scalar by its tag. -/
def scalarDocument (tag : Option (List Char)) (plain : Bool) (text : List Char) :
    Option Document :=
  match tag with
  | none => if plain then plainDocument text else some (.string (String.ofList text))
  | some tag =>
    if tag.head? = some '!' then none
    else if tag = "tag:yaml.org,2002:bool".toList then (booleanOf text).map .boolean
    else if tag = "tag:yaml.org,2002:int".toList then
      match integerOf text with
      | .integer n => some (.ofInt n)
      | _ => none
    else if tag = "tag:yaml.org,2002:float".toList then (floatOf text).map floatDocument
    else if tag = "tag:yaml.org,2002:null".toList then
      if isNull text then some .null else none
    else some (.string (String.ofList text))

namespace Stream

/-- How often aliases may be followed. -/
def aliasLimit (stream : Stream) : Nat := 100 * stream.root.events

/-- A node, or the node that an alias stands for; `used` counts the aliases followed. -/
def follow (stream : Stream) (node : Node) (used : Nat) : Option (Node × Nat) :=
  match node with
  | .alias number =>
    if stream.aliasLimit < used + 1 then none
    else (stream.anchors.node? number).map fun node => (node, used + 1)
  | _ => some (node, used)

/-- The text of a key. -/
def keyText (stream : Stream) (key : Node) (used : Nat) : Option (String × Nat) :=
  match stream.follow key used with
  | some (.scalar _ _ text, used) => some (String.ofList text, used)
  | _ => none

/-- Whether a tag is one of the document's own, which no value can have. -/
def isLocalTag (tag : Option (List Char)) : Bool := (tag.bind List.head?) == some '!'

/-- The documents of a list of items, in order, each read by `read`. -/
def itemsWith (read : Node → Nat → Option (Document × Nat)) (items : List Node) (used : Nat) :
    Option (List Document × Nat) :=
  match items with
  | [] => some ([], used)
  | item :: rest => do
    let (document, used) ← read item used
    let (documents, used) ← itemsWith read rest used
    some (document :: documents, used)

/-- The fields of a list of entries, in order, each value read by `read`. -/
def entriesWith (stream : Stream) (read : Node → Nat → Option (Document × Nat)) (acc : Fields)
    (entries : List (Node × Node)) (used : Nat) : Option (Fields × Nat) :=
  match entries with
  | [] => some (acc, used)
  | (key, value) :: rest => do
    let (key, used) ← stream.keyText key used
    let (document, used) ← read value used
    entriesWith stream read (acc.set key document) rest used

/-- The document of a node, where `budget` more collections may be opened. -/
def toDocument (stream : Stream) (budget : Nat) (node : Node) (used : Nat) :
    Option (Document × Nat) :=
  match stream.follow node used with
  | none => none
  | some (.alias _, _) => none
  | some (.scalar tag plain text, used) =>
    (scalarDocument tag plain text).map fun document => (document, used)
  | some (.sequence tag items, used) =>
    match budget with
    | 0 => none
    | budget + 1 =>
      if isLocalTag tag then none
      else (itemsWith (toDocument stream budget) items used).map fun (items, used) =>
        (.array items, used)
  | some (.mapping tag entries, used) =>
    match budget with
    | 0 => none
    | budget + 1 =>
      if isLocalTag tag then none
      else (entriesWith stream (toDocument stream budget) [] entries used).map
        fun (fields, used) => (.object fields, used)

end Stream

/-- The number of collections that may be open at once. -/
def nestingLimit : Nat := 128

/-- The document that a YAML text holds. -/
def parse (text : String) : Option Document := do
  let stream ← Stream.ofTokens? (← tokenize text)
  let (document, _) ← stream.toDocument nestingLimit stream.root 0
  some document

end AggQuery.Yaml
