import AggQuery.Document.Lexeme
import AggQuery.Yaml.Cursor

/-!
# Scalars of a YAML text

A scalar is written plain, between quotes or as a block. Plain and quoted scalars may run
over several lines: a single line break between two lines becomes a blank, and of several
breaks all but the first are kept. A block keeps its line breaks or folds them in the same
way, and says what happens to those at its end.

## Implementation notes

The loops are bounded by a fuel that callers take from the length of the text. `none` is a
text that is not YAML.
-/

namespace AggQuery.Yaml

/-- Blanks and line breaks between two words of a scalar. -/
structure Gap where
  /-- The blanks before any line break, reversed. -/
  blanks : List Char := []
  /-- Whether a line break has been passed. -/
  broken : Bool := false
  /-- The first line break. -/
  first : Option Char := none
  /-- The further line breaks, reversed. -/
  more : List Char := []
deriving Inhabited

namespace Gap

/-- What a gap contributes to the text of a scalar. -/
def text (gap : Gap) : List Char :=
  if gap.broken then
    match gap.first with
    | some '\n' => if gap.more.isEmpty then [' '] else gap.more.reverse
    | some c => c :: gap.more.reverse
    | none => gap.more.reverse
  else gap.blanks.reverse

/-- Read a gap to its end. A tab after a line break is refused before column `margin`. -/
def scan (fuel : Nat) (margin : Nat) (gap : Gap) (cursor : Cursor) : Option (Gap × Cursor) :=
  match fuel with
  | 0 => none
  | fuel + 1 =>
    match cursor.rest with
    | [] => some (gap, cursor)
    | c :: _ =>
      if isBlank c then
        if gap.broken then
          if c = '\t' ∧ cursor.column < margin then none
          else scan fuel margin gap (cursor.skip 1)
        else scan fuel margin { gap with blanks := c :: gap.blanks } (cursor.skip 1)
      else
        match cursor.takeBreak with
        | none => some (gap, cursor)
        | some (b, next) =>
          if gap.broken then scan fuel margin { gap with more := b :: gap.more } next
          else scan fuel margin { broken := true, first := some b } next

end Gap

/-- Whether a character separates or closes the items of a flow collection. -/
def isFlowEnd (c : Char) : Bool := c = ',' || c = '[' || c = ']' || c = '\x7b' || c = '\x7d'

/-- Whether a plain scalar ends before a text; `none` if a colon stands where it may not. -/
def plainEnds (inFlow : Bool) (text : List Char) : Option Bool :=
  match text with
  | [] => some true
  | c :: rest =>
    if isBlank c || isBreak c then some true
    else if inFlow && c = ':' && rest.head?.any (fun d => isFlowEnd d || d = '?') then none
    else some ((c = ':' && atGap rest) || (inFlow && isFlowEnd c))

/-- The words of a plain scalar and the gaps between them; `acc` is the text so far,
reversed. The result says whether a line break was passed before the end. -/
def plainLoop (fuel : Nat) (inFlow : Bool) (margin : Nat) (acc : List Char) (gap : Gap)
    (cursor : Cursor) : Option (List Char × Bool × Cursor) :=
  match fuel with
  | 0 => none
  | fuel + 1 => do
    let ended := (acc.reverse, gap.broken, cursor)
    if cursor.atMarker || cursor.rest.head? == some '#' then some ended
    else
      let (word, after) ← words fuel [] cursor
      let (acc, gap) := if word.isEmpty then (acc, gap) else (word ++ gap.text.reverse ++ acc, {})
      match after.rest with
      | c :: _ =>
        if isBlank c || isBreak c then
          let (gap, next) ← gap.scan (fuel + 1) margin after
          if !inFlow && next.column < margin then some (acc.reverse, gap.broken, next)
          else plainLoop fuel inFlow margin acc gap next
        else some (acc.reverse, gap.broken, after)
      | [] => some (acc.reverse, gap.broken, after)
where
  /-- The characters up to the end of a word, reversed. -/
  words (fuel : Nat) (acc : List Char) (cursor : Cursor) : Option (List Char × Cursor) :=
    match fuel with
    | 0 => none
    | fuel + 1 =>
      match plainEnds inFlow cursor.rest, cursor.rest with
      | none, _ => none
      | some true, _ => some (acc, cursor)
      | some false, [] => some (acc, cursor)
      | some false, c :: _ => words fuel (c :: acc) (cursor.skip 1)

/-- A plain scalar in a collection whose content stands at column `margin` or later. -/
def scanPlain (fuel : Nat) (inFlow : Bool) (margin : Nat) (cursor : Cursor) :
    Option (List Char × Bool × Cursor) :=
  plainLoop fuel inFlow margin [] {} cursor

/-- The number that `n` hexadecimal digits at the start of a text denote. -/
def hexNumber (n : Nat) (text : List Char) : Option Nat :=
  let digits := text.take n
  if digits.length < n then none
  else
    digits.foldl (fun acc c =>
      match acc, Lexeme.hexValue? c with
      | some value, some digit => some (16 * value + digit)
      | _, _ => none) (some 0)

/-- The character that a backslash and one more character stand for. -/
def simpleEscape? (c : Char) : Option Char :=
  match c with
  | '0' => some '\x00'
  | 'a' => some '\x07'
  | 'b' => some '\x08'
  | 't' => some '\t'
  | '\t' => some '\t'
  | 'n' => some '\n'
  | 'v' => some '\x0b'
  | 'f' => some '\x0c'
  | 'r' => some '\r'
  | 'e' => some '\x1b'
  | ' ' => some ' '
  | '"' => some '"'
  | '/' => some '/'
  | '\\' => some '\\'
  | 'N' => some '\x85'
  | '_' => some '\xa0'
  | 'L' => some '\u2028'
  | 'P' => some '\u2029'
  | _ => none

/-- The character that an escape stands for and the place after it. The backslash has been
read. -/
def scanEscape (cursor : Cursor) : Option (Char × Cursor) :=
  match cursor.rest with
  | [] => none
  | c :: rest =>
    let coded (n : Nat) : Option (Char × Cursor) := do
      let value ← hexNumber n rest
      if (0xD800 ≤ value ∧ value ≤ 0xDFFF) ∨ 0x10FFFF < value then none
      else some (Char.ofNat value, cursor.skip (n + 1))
    if c = 'x' then coded 2
    else if c = 'u' then coded 4
    else if c = 'U' then coded 8
    else (simpleEscape? c).map fun e => (e, cursor.skip 1)

/-- The characters of a quoted scalar up to a blank, a line break or the closing quote,
put in front of `acc`, reversed. The result says whether an escaped line break was passed. -/
def quotedWord (fuel : Nat) (single : Bool) (acc : List Char) (cursor : Cursor) :
    Option (List Char × Bool × Cursor) :=
  match fuel with
  | 0 => none
  | fuel + 1 =>
    match cursor.rest with
    | [] => some (acc, false, cursor)
    | c :: rest =>
      if isBlank c || isBreak c then some (acc, false, cursor)
      else if single then
        if c = '\'' then
          if rest.head? == some '\'' then quotedWord fuel single ('\'' :: acc) (cursor.skip 2)
          else some (acc, false, cursor)
        else quotedWord fuel single (c :: acc) (cursor.skip 1)
      else if c = '"' then some (acc, false, cursor)
      else if c = '\\' then
        match (cursor.skip 1).takeBreak with
        | some (_, next) => some (acc, true, next)
        | none =>
          match scanEscape (cursor.skip 1) with
          | none => none
          | some (e, next) => quotedWord fuel single (e :: acc) next
      else quotedWord fuel single (c :: acc) (cursor.skip 1)

/-- A quoted scalar, from behind its opening quote on; `acc` is its text so far, reversed. -/
def scanQuoted (fuel : Nat) (single : Bool) (acc : List Char) (cursor : Cursor) :
    Option (List Char × Cursor) :=
  match fuel with
  | 0 => none
  | fuel + 1 => do
    if cursor.atMarker then none
    else
      let (acc, escaped, after) ← quotedWord (fuel + 1) single acc cursor
      match after.rest with
      | [] => none
      | c :: _ =>
        if c = (if single then '\'' else '"') then some (acc.reverse, after.skip 1)
        else
          let (gap, next) ← Gap.scan (fuel + 1) 0 { broken := escaped } after
          scanQuoted fuel single (gap.text.reverse ++ acc) next

/-- What happens to the line breaks at the end of a block scalar. -/
inductive Chomping where
  | strip
  | clip
  | keep
deriving DecidableEq, Inhabited, Repr

/-- The header of a block scalar, behind its indicator: chomping and extra indentation, in
either order. -/
def blockHeader (cursor : Cursor) : Option (Chomping × Nat × Cursor) :=
  let chomp? (cursor : Cursor) : Option (Chomping × Cursor) :=
    match cursor.rest with
    | '+' :: _ => some (.keep, cursor.skip 1)
    | '-' :: _ => some (.strip, cursor.skip 1)
    | _ => none
  let digit (cursor : Cursor) : Option (Nat × Cursor) :=
    match cursor.rest with
    | c :: _ =>
      if c = '0' then none
      else if c.isDigit then some (c.toNat - 48, cursor.skip 1)
      else some (0, cursor)
    | [] => some (0, cursor)
  match chomp? cursor with
  | some (chomping, next) => do
    let (extra, next) ← digit next
    some (chomping, extra, next)
  | none => do
    let (extra, next) ← digit cursor
    if extra = 0 then some (.clip, 0, next)
    else
      match chomp? next with
      | some (chomping, next) => some (chomping, extra, next)
      | none => some (.clip, extra, next)

/-- The blanks and line breaks in front of a line of a block. With no indentation known
(`indent = 0`) all blanks are passed and `widest` takes the greatest column. -/
def blockBreaks (fuel : Nat) (indent : Nat) (breaks : List Char) (widest : Nat)
    (cursor : Cursor) : Option (List Char × Nat × Cursor) :=
  match fuel with
  | 0 => none
  | fuel + 1 =>
    let blanks := (cursor.rest.takeWhile (· = ' ')).length
    let cursor := cursor.skip (if indent = 0 then blanks else min blanks (indent - cursor.column))
    let widest := max widest cursor.column
    if (indent = 0 ∨ cursor.column < indent) ∧ cursor.rest.head? = some '\t' then none
    else
      match cursor.takeBreak with
      | none => some (breaks, widest, cursor)
      | some (b, next) => blockBreaks fuel indent (b :: breaks) widest next

/-- The state of a block scalar between two lines. -/
structure Block where
  /-- The text so far, reversed. -/
  text : List Char := []
  /-- The break that ended the last line. -/
  last : Option Char := none
  /-- The breaks of the empty lines since, reversed. -/
  empty : List Char := []
  /-- Whether the last line started with a blank. -/
  indented : Bool := false
deriving Inhabited

/-- The lines of a block scalar. -/
def blockLines (fuel : Nat) (literal : Bool) (indent : Nat) (block : Block) (cursor : Cursor) :
    Option (Block × Cursor) :=
  match fuel with
  | 0 => none
  | fuel + 1 => do
    match cursor.rest with
    | [] => some (block, cursor)
    | c :: _ =>
      if cursor.column ≠ indent then some (block, cursor)
      else
        let folds := !literal && block.last == some '\n' && !block.indented && !isBlank c
        let joint :=
          if folds then (if block.empty.isEmpty then [' '] else []) else block.last.toList
        let line := cursor.rest.takeWhile fun c => !isBreak c
        let text := line.reverse ++ (block.empty ++ (joint ++ block.text))
        let after := cursor.skip line.length
        let (last, next) :=
          match after.takeBreak with
          | some (b, next) => (some b, next)
          | none => (none, after)
        let (empty, _, next) ← blockBreaks (fuel + 1) indent [] 0 next
        blockLines fuel literal indent { text, last, empty, indented := isBlank c } next

/-- A block scalar, from behind its indicator on, inside a collection at column `parent`
(none at the top). -/
def scanBlock (fuel : Nat) (literal : Bool) (parent : Option Nat) (cursor : Cursor) :
    Option (List Char × Cursor) := do
  let (chomping, extra, cursor) ← blockHeader cursor
  let cursor := cursor.skipWhile isBlank
  let cursor :=
    if cursor.rest.head? = some '#' then cursor.skipWhile fun c => !isBreak c else cursor
  if !atLineEnd cursor.rest then none
  else
    let given := if extra = 0 then 0 else parent.getD 0 + extra
    let (breaks, widest, start) ← blockBreaks fuel given [] 0 cursor.skipBreak
    let indent := if given = 0 then max widest (parent.elim 1 (· + 1)) else given
    let (block, next) ← blockLines fuel literal indent { empty := breaks } start
    let ending :=
      match chomping with
      | .strip => []
      | .clip => block.last.toList
      | .keep => block.empty ++ block.last.toList
    some ((ending ++ block.text).reverse, next)

end AggQuery.Yaml
