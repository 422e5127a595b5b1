import AggQuery.Query.Basic
import AggQuery.Reading.Text

/-!
# Queries from text

A query document is read in one pass over its text, straight into a query, so that of
several problems the first one in the text is reported. Objects and arrays may nest at most
`nestingLimit` deep; the values of unknown keys do not count. The payload of an expression
variant may be written as an array here.

## Implementation notes

The readers recurse on the number of levels that may still be opened. The fuel of the loops
over elements and fields is the length of the text.
-/

namespace AggQuery

/-- The number of objects and arrays that may be open at once. -/
def nestingLimit : Nat := 127

open TextReader

namespace Literal

/-- The constant at the start of a text. -/
def ofText (budget : Nat) (text : List Char) : Except ReadError (Literal × List Char) := do
  match ← variantStart text with
  | (some name, rest) => .ok (← shaped (LiteralVariant.ofName name >>= (·.withoutPayload)), rest)
  | (none, rest) =>
    if budget = 0 then malformed
    else
      let (variant, rest) ← variantKey LiteralVariant.ofName rest
      closed (match variant with
        | .string => (TextReader.string "a string" rest).map fun (s, rest) => (.string s, rest)
        | .integer => (TextReader.integer rest).map fun (n, rest) => (.integer n, rest)
        | .float => (TextReader.float rest).map fun (x, rest) => (.float x, rest)
        | .boolean => (TextReader.boolean rest).map fun (b, rest) => (.boolean b, rest)
        | .duration => (TextReader.string "a string" rest).map fun (s, rest) => (.duration s, rest)
        | .null => (unit rest).map fun (_, rest) => (.null, rest))

end Literal

/-- An operator at the start of a text: its name, or an object from its name to null. -/
def operatorOfText (ofName : String → Except ShapeError α) (budget : Nat) (text : List Char) :
    Except ReadError (α × List Char) := do
  match ← variantStart text with
  | (some name, rest) => .ok (← shaped (ofName name), rest)
  | (none, rest) =>
    if budget = 0 then malformed
    else
      let (op, rest) ← variantKey ofName rest
      closed ((unit rest).map fun (_, rest) => (op, rest))

namespace Expr

/-- Complete a variant's payload from the values read. -/
def finishWith (finish : σ → Except ShapeError Expr)
    (result : Except ReadError (σ × List Char)) : Except ReadError (Expr × List Char) := do
  let (slots, rest) ← result
  .ok (← shaped (finish slots), rest)

/-- The next element of an array, which must be there; `read` elements are behind it. -/
def nextOf (wanted : String) (read : Nat) (element : List Char → Except ReadError (α × List Char))
    (text : List Char) : Except ReadError (α × List Char) := do
  match ← nextElement (read == 0) text with
  | none => .error (.shape (.invalidLength read wanted))
  | some text => element text

mutual

/-- The expression at the start of a text, where `budget` more levels may be opened. -/
def ofText (budget : Nat) (text : List Char) : Except ReadError (Expr × List Char) :=
  match variantStart text with
  | .error e => .error e
  | .ok (some name, rest) =>
    match ExprVariant.ofName name >>= ExprVariant.withoutPayload with
    | .error e => .error (.shape e)
    | .ok expr => .ok (expr, rest)
  | .ok (none, rest) =>
    match budget with
    | 0 => malformed
    | budget + 1 =>
      match variantKey ExprVariant.ofName rest with
      | .error e => .error e
      | .ok (variant, rest) =>
        closed (match variant with
          | .field => (string "a string" rest).map fun (s, rest) => (.field s, rest)
          | .literal => (Literal.ofText budget rest).map fun (l, rest) => (.literal l, rest)
          | .call => callOfText budget rest
          | .binary => binaryOfText budget rest
          | .unary => unaryOfText budget rest
          | .paren => (ofText budget rest).map fun (e, rest) => (.paren e, rest)
          | .wildcard => (unit rest).map fun (_, rest) => (.wildcard, rest))

/-- The payload of a call. -/
def callOfText (budget : Nat) (text : List Char) : Except ReadError (Expr × List Char) :=
  match Lexeme.skipBlanks text with
  | [] => truncated
  | '\x7b' :: rest =>
    match budget with
    | 0 => malformed
    | budget + 1 =>
      finishWith CallSlots.finish (members
        (fun slots key rest =>
          match CallKey.ofKey? key with
          | none => ignored slots rest
          | some .name => member slots.name.isSome "name" (string "a string")
              (fun name => { slots with name := some name }) rest
          | some .args => member slots.args.isSome "args" (listOfText budget)
              (fun args => { slots with args := some args }) rest)
        (rest.length + 1) true {} rest)
  | '[' :: rest =>
    match budget with
    | 0 => malformed
    | budget + 1 => do
      let (name, rest) ← nextOf "struct variant Expr::Call with 2 elements" 0
        (string "a string") rest
      match ← nextElement false rest with
      | none => .ok (.call name [], ← endOfArray rest)
      | some rest =>
        let (args, rest) ← listOfText budget rest
        .ok (.call name args, ← endOfArray rest)
  | text => .error (mismatch "struct variant Expr::Call" text)

/-- The payload of an operation with two operands. -/
def binaryOfText (budget : Nat) (text : List Char) : Except ReadError (Expr × List Char) :=
  match Lexeme.skipBlanks text with
  | [] => truncated
  | '\x7b' :: rest =>
    match budget with
    | 0 => malformed
    | budget + 1 =>
      finishWith BinarySlots.finish (members
        (fun slots key rest =>
          match BinaryKey.ofKey? key with
          | none => ignored slots rest
          | some .op => member slots.op.isSome "op" (operatorOfText BinaryOp.ofName budget)
              (fun op => { slots with op := some op }) rest
          | some .lhs => member slots.lhs.isSome "lhs" (ofText budget)
              (fun lhs => { slots with lhs := some lhs }) rest
          | some .rhs => member slots.rhs.isSome "rhs" (ofText budget)
              (fun rhs => { slots with rhs := some rhs }) rest)
        (rest.length + 1) true {} rest)
  | '[' :: rest =>
    match budget with
    | 0 => malformed
    | budget + 1 => do
      let wanted := "struct variant Expr::Binary with 3 elements"
      let (op, rest) ← nextOf wanted 0 (operatorOfText BinaryOp.ofName budget) rest
      let (lhs, rest) ← nextOf wanted 1 (ofText budget) rest
      let (rhs, rest) ← nextOf wanted 2 (ofText budget) rest
      .ok (.binary op lhs rhs, ← endOfArray rest)
  | text => .error (mismatch "struct variant Expr::Binary" text)

/-- The payload of an operation with one operand. -/
def unaryOfText (budget : Nat) (text : List Char) : Except ReadError (Expr × List Char) :=
  match Lexeme.skipBlanks text with
  | [] => truncated
  | '\x7b' :: rest =>
    match budget with
    | 0 => malformed
    | budget + 1 =>
      finishWith UnarySlots.finish (members
        (fun slots key rest =>
          match UnaryKey.ofKey? key with
          | none => ignored slots rest
          | some .op => member slots.op.isSome "op" (operatorOfText UnaryOp.ofName budget)
              (fun op => { slots with op := some op }) rest
          | some .expr => member slots.expr.isSome "expr" (ofText budget)
              (fun expr => { slots with expr := some expr }) rest)
        (rest.length + 1) true {} rest)
  | '[' :: rest =>
    match budget with
    | 0 => malformed
    | budget + 1 => do
      let wanted := "struct variant Expr::Unary with 2 elements"
      let (op, rest) ← nextOf wanted 0 (operatorOfText UnaryOp.ofName budget) rest
      let (expr, rest) ← nextOf wanted 1 (ofText budget) rest
      .ok (.unary op expr, ← endOfArray rest)
  | text => .error (mismatch "struct variant Expr::Unary" text)

/-- An array of expressions. -/
def listOfText (budget : Nat) (text : List Char) : Except ReadError (List Expr × List Char) :=
  match Lexeme.skipBlanks text with
  | [] => truncated
  | '[' :: rest =>
    match budget with
    | 0 => malformed
    | budget + 1 => elements (ofText budget) (rest.length + 1) true [] rest
  | text => .error (mismatch "a sequence" text)

end

end Expr

namespace SortField

/-- The sort criterion at the start of a text. -/
def ofText (budget : Nat) (text : List Char) : Except ReadError (SortField × List Char) :=
  match Lexeme.skipBlanks text with
  | [] => truncated
  | '\x7b' :: rest =>
    if budget = 0 then malformed
    else do
      let (slots, rest) ← members
        (fun (slots : SortSlots) key rest =>
          match SortKey.ofKey? key with
          | none => ignored slots rest
          | some .name => member slots.name.isSome "name" (string "a string")
              (fun name => { slots with name := some name }) rest
          | some .ascending => member slots.ascending.isSome "ascending" boolean
              (fun ascending => { slots with ascending := some ascending }) rest)
        (rest.length + 1) true {} rest
      .ok (← shaped slots.finish, rest)
  | '[' :: rest =>
    if budget = 0 then malformed
    else do
      let (name, rest) ← Expr.nextOf "struct SortField with 2 elements" 0
        (string "a string") rest
      match ← nextElement false rest with
      | none => .ok ({ name }, ← endOfArray rest)
      | some rest =>
        let (ascending, rest) ← boolean rest
        .ok ({ name, ascending }, ← endOfArray rest)
  | text => .error (mismatch "struct SortField" text)

/-- An array of sort criteria. -/
def listOfText (budget : Nat) (text : List Char) :
    Except ReadError (List SortField × List Char) :=
  match Lexeme.skipBlanks text with
  | [] => truncated
  | '[' :: rest =>
    if budget = 0 then malformed else elements (ofText (budget - 1)) (rest.length + 1) true [] rest
  | text => .error (mismatch "a sequence" text)

end SortField

namespace Query

/-- The filter at the start of a text; null is no filter. -/
def conditionOfText (budget : Nat) (text : List Char) :
    Except ReadError (Option Expr × List Char) :=
  match Lexeme.skipBlanks text with
  | 'n' :: rest => do .ok (none, ← lexed (Lexeme.word ['u', 'l', 'l'] rest))
  | text => (Expr.ofText budget text).map fun (e, rest) => (some e, rest)

/-- The value of a field at the start of a text, put among the values read so far. -/
def fieldOfText (budget : Nat) (slots : QuerySlots) (field : QueryField) (text : List Char) :
    Except ReadError (QuerySlots × List Char) :=
  match field with
  | .offset => (count text).map fun (x, rest) => ({ slots with offset := some x }, rest)
  | .limit => (count text).map fun (x, rest) => ({ slots with limit := some x }, rest)
  | .sortFields => (SortField.listOfText budget text).map fun (x, rest) =>
      ({ slots with sortFields := some x }, rest)
  | .filterCondition => (conditionOfText budget text).map fun (x, rest) =>
      ({ slots with filterCondition := some x }, rest)
  | .dimensions => (Expr.listOfText budget text).map fun (x, rest) =>
      ({ slots with dimensions := some x }, rest)
  | .fields => (Expr.listOfText budget text).map fun (x, rest) =>
      ({ slots with fields := some x }, rest)

/-- The remaining elements of the array form of a query; those missing at the end have
their defaults. -/
def elementsOfText (budget : Nat) (slots : QuerySlots) (first : Bool)
    (fields : List QueryField) (text : List Char) : Except ReadError (QuerySlots × List Char) :=
  match fields with
  | [] => .ok (slots, text)
  | field :: fields => do
    match ← nextElement first text with
    | none => .ok (slots, text)
    | some text =>
      let (slots, rest) ← fieldOfText budget slots field text
      elementsOfText budget slots false fields rest

/-- The query at the start of a text. -/
def startOfText (budget : Nat) (text : List Char) : Except ReadError (Query × List Char) :=
  match Lexeme.skipBlanks text with
  | [] => truncated
  | '\x7b' :: rest =>
    if budget = 0 then malformed
    else do
      let (slots, rest) ← members
        (fun (slots : QuerySlots) key rest =>
          match QueryField.ofKey? key with
          | none => ignored slots rest
          | some field =>
            if slots.filled field then .error (.shape (.duplicateField field.name))
            else do fieldOfText (budget - 1) slots field (← lexed (Lexeme.colon rest)))
        (rest.length + 1) true {} rest
      .ok (slots.finish, rest)
  | '[' :: rest =>
    if budget = 0 then malformed
    else do
      let (slots, rest) ← elementsOfText (budget - 1) {} true QueryField.all rest
      .ok (slots.finish, ← endOfArray rest)
  | text => .error (mismatch "struct Query" text)

/-- The query that a text holds. -/
def ofText (text : String) : Except ReadError Query := do
  let (query, rest) ← startOfText nestingLimit text.toList
  if (Lexeme.skipBlanks rest).isEmpty then .ok query else malformed

end Query

end AggQuery
