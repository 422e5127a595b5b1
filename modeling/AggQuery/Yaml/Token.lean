import AggQuery.Yaml.Scalar

/-!
# Tokens of a YAML text

`tokenize` divides a text into tokens. Indentation becomes tokens that open and close block
collections. A key of one line is recognized by the colon behind it: the token that marks
it, and the one that opens its mapping, are then put in front of it.

## Implementation notes

The state keeps the tokens in reverse with their number, the open indentations, and for
each open flow collection and the block around them the key that may still turn out to be
one. A step reads one token and what it implies.
-/

namespace AggQuery.Yaml

/-- A token. -/
inductive Token where
  | versionDirective (major minor : Nat)
  | tagDirective (handle expansion : List Char)
  | documentStart
  | documentEnd
  | blockSequenceStart
  | blockMappingStart
  | blockEnd
  | flowSequenceStart
  | flowSequenceEnd
  | flowMappingStart
  | flowMappingEnd
  | blockEntry
  | flowEntry
  | key
  | value
  | alias (name : List Char)
  | anchor (name : List Char)
  | tag (handle suffix : List Char)
  | scalar (plain : Bool) (text : List Char)
deriving DecidableEq, Inhabited, Repr

/-- A place where a key may have started. -/
structure PossibleKey where
  /-- Whether the line must turn out to be a key. -/
  required : Bool
  /-- The number of tokens in front of it. -/
  position : Nat
  index : Nat
  line : Nat
  column : Nat
deriving Inhabited

/-- The state of the division into tokens. -/
structure Tokenizer where
  cursor : Cursor
  /-- The tokens so far, the last one first. -/
  tokens : List Token := []
  count : Nat := 0
  /-- The column of the innermost block collection. -/
  indent : Option Nat := none
  /-- The columns of the block collections around it. -/
  outer : List (Option Nat) := []
  /-- Whether a key may start here. -/
  keyAllowed : Bool := true
  /-- The possible key of the innermost flow collection, or of the block outside all. -/
  possible : Option PossibleKey := none
  /-- The possible keys of the collections around the innermost one. -/
  suspended : List (Option PossibleKey) := []
deriving Inhabited

namespace Tokenizer

def inFlow (t : Tokenizer) : Bool := !t.suspended.isEmpty

/-- Append a token. -/
def push (t : Tokenizer) (token : Token) : Tokenizer :=
  { t with tokens := token :: t.tokens, count := t.count + 1 }

/-- Insert a token behind the first `position` tokens. -/
def insert (t : Tokenizer) (position : Nat) (token : Token) : Tokenizer :=
  { t with
    tokens := t.tokens.insertIdx (t.count - position) token
    count := t.count + 1 }

/-- Go on at another place. -/
def moveTo (t : Tokenizer) (cursor : Cursor) : Tokenizer := { t with cursor }

/-- Append a token for the next `n` characters. -/
def take (t : Tokenizer) (n : Nat) (token : Token) : Tokenizer :=
  (t.push token).moveTo (t.cursor.skip n)

/-- Whether a column is deeper than the innermost block collection. -/
def isDeeper (t : Tokenizer) (column : Nat) : Bool :=
  match t.indent with
  | none => true
  | some indent => indent < column

/-- Open a block collection at a column that is deeper than the innermost one; its token
goes behind the first `position` tokens. -/
def openBlock (t : Tokenizer) (column position : Nat) (token : Token) : Tokenizer :=
  if t.inFlow || !t.isDeeper column then t
  else
    { t.insert position token with
      indent := some column
      outer := t.indent :: t.outer }

/-- Close the block collections that are deeper than a column; without a column, all. -/
def closeBlocks (t : Tokenizer) (column : Option Nat) : Tokenizer :=
  if t.inFlow then t else go t t.indent t.outer
where
  /-- Close collections from the given innermost one outwards. -/
  go (t : Tokenizer) (indent : Option Nat) (outer : List (Option Nat)) : Tokenizer :=
    let stays :=
      match indent, column with
      | none, _ => true
      | some _, none => false
      | some i, some c => decide (i ≤ c)
    if stays then { t with indent, outer }
    else
      match outer with
      | [] => { t.push .blockEnd with indent := none, outer := [] }
      | next :: outer => go (t.push .blockEnd) next outer

/-- Forget the possible key; one that is required may not be forgotten. -/
def dropKey (t : Tokenizer) : Option Tokenizer :=
  match t.possible with
  | some key => if key.required then none else some { t with possible := none }
  | none => some t

/-- Note that a key may start here, if one is allowed. -/
def noteKey (t : Tokenizer) : Option Tokenizer :=
  if t.keyAllowed then do
    let t ← t.dropKey
    some { t with possible := some {
      required := !t.inFlow && t.indent == some t.cursor.column
      position := t.count
      index := t.cursor.index
      line := t.cursor.line
      column := t.cursor.column } }
  else some t

/-- Whether a possible key can no longer be one: it would run over a line or be too long. -/
def isStale (cursor : Cursor) (key : PossibleKey) : Bool :=
  key.line < cursor.line || key.index + 1024 < cursor.index

/-- A possible key, dropped if it is stale; a stale one may not be required. -/
def refreshKey (cursor : Cursor) (key : Option PossibleKey) : Option (Option PossibleKey) :=
  match key with
  | some key =>
    if isStale cursor key then if key.required then none else some none else some (some key)
  | none => some none

/-- Drop all stale possible keys. -/
def refreshKeys (t : Tokenizer) : Option Tokenizer := do
  let possible ← refreshKey t.cursor t.possible
  let suspended ← t.suspended.mapM (refreshKey t.cursor)
  some { t with possible, suspended }

/-- Pass blanks, comments and line breaks in front of a token. A byte order mark at the very
start is passed too, but takes up a column. -/
def skipGap (fuel : Nat) (t : Tokenizer) : Option Tokenizer :=
  match fuel with
  | 0 => none
  | fuel + 1 =>
    let cursor :=
      if t.cursor.index = 0 ∧ t.cursor.rest.head? = some '\ufeff' then t.cursor.skip 1
      else t.cursor
    let cursor := cursor.skipWhile fun c =>
      c = ' ' || (c = '\t' && (t.inFlow || !t.keyAllowed))
    let cursor :=
      if cursor.rest.head? = some '#' then cursor.skipWhile fun c => !isBreak c else cursor
    match cursor.takeBreak with
    | some (_, next) =>
      skipGap fuel { t with cursor := next, keyAllowed := t.keyAllowed || !t.inFlow }
    | none => some (t.moveTo cursor)

/-- The characters of a tag: those of words and some punctuation, and escaped bytes. -/
def isTagChar (verbatim : Bool) (c : Char) : Bool :=
  isWordChar c || [';', '/', '?', ':', '@', '&', '=', '+', '$', '.', '!', '~', '*', '\'', '(',
    ')'].contains c || (verbatim && (c = ',' || c = '[' || c = ']'))

/-- The bytes that escapes at the start of a text stand for, as long as there are any. -/
def escapedBytes (fuel : Nat) (text : List Char) : Option (List Nat × List Char) :=
  match fuel, text with
  | 0, _ => none
  | fuel + 1, '%' :: a :: b :: rest =>
    match Lexeme.hexValue? a, Lexeme.hexValue? b with
    | some a, some b => do
      let (bytes, rest) ← escapedBytes fuel rest
      some ((16 * a + b) :: bytes, rest)
    | _, _ => none
  | _ + 1, '%' :: _ => none
  | _ + 1, text => some ([], text)

/-- The characters that bytes encode. -/
def decodeBytes (bytes : List Nat) : Option (List Char) :=
  (String.fromUTF8? ⟨(bytes.map UInt8.ofNat).toArray⟩).map String.toList

/-- The longest run of tag characters and the text behind it. -/
def tagChars (fuel : Nat) (verbatim : Bool) (acc : List Char) (text : List Char) :
    Option (List Char × List Char) :=
  match fuel, text with
  | 0, _ => none
  | fuel + 1, '%' :: rest => do
    let (bytes, rest) ← escapedBytes fuel ('%' :: rest)
    let decoded ← decodeBytes bytes
    tagChars fuel verbatim (decoded.reverse ++ acc) rest
  | fuel + 1, c :: rest =>
    if isTagChar verbatim c then tagChars fuel verbatim (c :: acc) rest
    else some (acc.reverse, c :: rest)
  | _ + 1, [] => some (acc.reverse, [])

/-- The place at which a given rest of the line starts. -/
def placeAt (cursor : Cursor) (rest : List Char) : Cursor :=
  cursor.skip (cursor.rest.length - rest.length)

/-- A tag handle: an exclamation mark, word characters and, where it is complete, another
exclamation mark. -/
def tagHandle (text : List Char) : Option (List Char × List Char) :=
  match text with
  | '!' :: rest =>
    let word := rest.takeWhile isWordChar
    match rest.drop word.length with
    | '!' :: rest => some ('!' :: word ++ ['!'], rest)
    | rest => some ('!' :: word, rest)
  | _ => none

/-- A tag, with its handle and suffix. -/
def scanTag (fuel : Nat) (t : Tokenizer) : Option (List Char × List Char × Cursor) := do
  let text := t.cursor.rest
  let (handle, suffix, rest) ←
    match text with
    | '!' :: '<' :: rest => do
      let (suffix, rest) ← tagChars fuel true [] rest
      match suffix, rest with
      | _ :: _, '>' :: rest => some ([], suffix, rest)
      | _, _ => none
    | _ => do
      let (head, rest) ← tagHandle text
      let (suffix, rest) ← tagChars fuel false [] rest
      if 1 < head.length ∧ head.getLast? = some '!' then
        if suffix.isEmpty then none else some (head, suffix, rest)
      else
        match head.drop 1 ++ suffix with
        | [] => some ([], ['!'], rest)
        | suffix => some (['!'], suffix, rest)
  if atGap rest || (t.inFlow && rest.head? == some ',') then
    some (handle, suffix, placeAt t.cursor rest)
  else none

/-- The name of an anchor or alias, behind its indicator. -/
def scanName (cursor : Cursor) : Option (List Char × Cursor) :=
  let name := cursor.rest.takeWhile isWordChar
  let rest := cursor.rest.drop name.length
  let ended := atGap rest ||
    rest.head?.any fun c => ['?', ':', ',', ']', '\x7d', '%', '@', '`'].contains c
  if name.isEmpty || !ended then none else some (name, cursor.skip name.length)

/-- The text after the blanks, the comment and the line break behind a directive. -/
def directiveEnd (cursor : Cursor) : Option Cursor :=
  let cursor := cursor.skipWhile isBlank
  let cursor :=
    if cursor.rest.head? = some '#' then cursor.skipWhile fun c => !isBreak c else cursor
  if atLineEnd cursor.rest then some cursor.skipBreak else none

/-- A number of at most nine digits. -/
def versionNumber (cursor : Cursor) : Option (Nat × Cursor) :=
  let digits := cursor.rest.takeWhile Char.isDigit
  if digits.isEmpty ∨ 9 < digits.length then none
  else some (Lexeme.digitsValue digits, cursor.skip digits.length)

/-- A directive, behind its percent sign. -/
def scanDirective (fuel : Nat) (cursor : Cursor) : Option (Token × Cursor) := do
  let name := cursor.rest.takeWhile isWordChar
  let cursor := cursor.skip name.length
  if !atGap cursor.rest then none
  else
    let cursor := cursor.skipWhile isBlank
    if name = ['Y', 'A', 'M', 'L'] then
      let (major, cursor) ← versionNumber cursor
      if cursor.rest.head? ≠ some '.' then none
      else
        let (minor, cursor) ← versionNumber (cursor.skip 1)
        some (.versionDirective major minor, ← directiveEnd cursor)
    else if name = ['T', 'A', 'G'] then
      let (handle, rest) ← tagHandle cursor.rest
      if handle ≠ ['!'] ∧ handle.getLast? ≠ some '!' then none
      else if rest.head?.all (fun c => !isBlank c) then none
      else
        let cursor := (placeAt cursor rest).skipWhile isBlank
        let (expansion, rest) ← tagChars fuel true [] cursor.rest
        if expansion.isEmpty || !atGap rest then none
        else some (.tagDirective handle expansion, ← directiveEnd (placeAt cursor rest))
    else none

/-- Leave all block collections, as before a directive or a document marker. -/
def leaveAll (t : Tokenizer) : Option Tokenizer := do
  let t ← (t.closeBlocks none).dropKey
  some { t with keyAllowed := false }

/-- Open a flow collection. -/
def openFlow (t : Tokenizer) (token : Token) : Option Tokenizer := do
  let t ← t.noteKey
  some ({ t with
    suspended := t.possible :: t.suspended
    possible := none
    keyAllowed := true }.take 1 token)

/-- Close a flow collection. -/
def closeFlow (t : Tokenizer) (token : Token) : Option Tokenizer := do
  let t ← t.dropKey
  let (possible, suspended) :=
    match t.suspended with
    | [] => (t.possible, [])
    | key :: keys => (key, keys)
  some ({ t with possible, suspended, keyAllowed := false }.take 1 token)

/-- A dash, a question mark or a complex key's colon in block context. -/
def blockIndicator (t : Tokenizer) (token : Token) : Option Tokenizer :=
  if t.inFlow then some t
  else if t.keyAllowed then some (t.openBlock t.cursor.column t.count token)
  else none

/-- The colon behind a key. -/
def valueIndicator (t : Tokenizer) : Option Tokenizer :=
  match t.possible with
  | some key =>
    let t := (t.insert key.position .key).openBlock key.column key.position .blockMappingStart
    some ({ t with possible := none, keyAllowed := false }.take 1 .value)
  | none => do
    let t ← t.blockIndicator .blockMappingStart
    some ({ t with keyAllowed := !t.inFlow }.take 1 .value)

/-- Read what a node's first token consists of, where a key may start. -/
def nodeStart (t : Tokenizer) (scan : Tokenizer → Option (Token × Cursor)) :
    Option Tokenizer := do
  let t ← t.noteKey
  let (token, next) ← scan t
  some (({ t with keyAllowed := false }.push token).moveTo next)

/-- Whether a plain scalar may start with a character. -/
def startsPlain (inFlow : Bool) (c : Char) (rest : List Char) : Bool :=
  if c = '-' then !(rest.head?.any isBlank)
  else if c = '?' || c = ':' then !inFlow && !atGap rest
  else !(isBlank c || isBreak c || [',', '[', ']', '\x7b', '\x7d', '#', '&', '*', '!', '|',
    '>', '\'', '"', '%', '@', '`'].contains c)

/-- Read a plain scalar. -/
def plain (fuel : Nat) (t : Tokenizer) : Option Tokenizer := do
  let t ← t.noteKey
  let margin := t.indent.elim 0 (· + 1)
  let (text, broken, next) ← scanPlain fuel t.inFlow margin t.cursor
  some (({ t with keyAllowed := broken }.push (.scalar true text)).moveTo next)

/-- Read a block scalar. -/
def block (fuel : Nat) (literal : Bool) (t : Tokenizer) : Option Tokenizer := do
  let t ← t.dropKey
  let (text, next) ← scanBlock fuel literal t.indent (t.cursor.skip 1)
  some (({ t with keyAllowed := true }.push (.scalar false text)).moveTo next)

/-- Read one token where the text goes on with `c` and `rest`. -/
def token (fuel : Nat) (t : Tokenizer) (c : Char) (rest : List Char) : Option Tokenizer :=
  if t.cursor.column = 0 ∧ c = '%' then do
    let t ← t.leaveAll
    let (token, next) ← scanDirective fuel (t.cursor.skip 1)
    some ((t.push token).moveTo next)
  else if t.cursor.atMarker then do
    let t ← t.leaveAll
    some (t.take 3 (if c = '-' then .documentStart else .documentEnd))
  else if c = '[' then t.openFlow .flowSequenceStart
  else if c = '\x7b' then t.openFlow .flowMappingStart
  else if c = ']' then t.closeFlow .flowSequenceEnd
  else if c = '\x7d' then t.closeFlow .flowMappingEnd
  else if c = ',' then do
    let t ← t.dropKey
    some ({ t with keyAllowed := true }.take 1 .flowEntry)
  else if c = '-' ∧ atGap rest then do
    let t ← (← t.blockIndicator .blockSequenceStart).dropKey
    some ({ t with keyAllowed := true }.take 1 .blockEntry)
  else if c = '?' ∧ (t.inFlow ∨ atGap rest) then do
    let t ← (← t.blockIndicator .blockMappingStart).dropKey
    some ({ t with keyAllowed := !t.inFlow }.take 1 .key)
  else if c = ':' ∧ (t.inFlow ∨ atGap rest) then t.valueIndicator
  else if c = '*' then
    t.nodeStart fun t => (scanName (t.cursor.skip 1)).map fun (name, next) => (.alias name, next)
  else if c = '&' then
    t.nodeStart fun t => (scanName (t.cursor.skip 1)).map fun (name, next) => (.anchor name, next)
  else if c = '!' then
    t.nodeStart fun t => (t.scanTag fuel).map fun (handle, suffix, next) =>
      (.tag handle suffix, next)
  else if c = '|' ∧ !t.inFlow then t.block fuel true
  else if c = '>' ∧ !t.inFlow then t.block fuel false
  else if c = '\'' ∨ c = '"' then
    t.nodeStart fun t => (scanQuoted fuel (c == '\'') [] (t.cursor.skip 1)).map
      fun (text, next) => (.scalar false text, next)
  else if startsPlain t.inFlow c rest then t.plain fuel
  else none

/-- Close all that is open at the end of the text. -/
def finish (t : Tokenizer) : Option (List Token) := do
  let t ← (t.closeBlocks none).dropKey
  some t.tokens.reverse

/-- Read tokens to the end of the text; `bound` bounds the loops of each step. -/
def run (bound fuel : Nat) (t : Tokenizer) : Option (List Token) :=
  match fuel with
  | 0 => none
  | fuel + 1 => do
    let t ← (← t.skipGap bound).refreshKeys
    let t := t.closeBlocks (some t.cursor.column)
    match t.cursor.rest with
    | [] => t.finish
    | c :: rest => run bound fuel (← t.token bound c rest)

end Tokenizer

/-- The tokens of a text. -/
def tokenize (text : String) : Option (List Token) :=
  let characters := text.toList
  if characters.all isReadable then
    let bound := 2 * characters.length + 16
    Tokenizer.run bound bound { cursor := { rest := characters } }
  else none

end AggQuery.Yaml
