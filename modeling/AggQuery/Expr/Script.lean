import AggQuery.Expr.Basic
import AggQuery.Number.IntegerText
import AggQuery.Number.Layout
import AggQuery.Text.Quoted

/-!
# Scripts

An expression is written in the script language of the search engine. The text is used
both as a script and as the name of an aggregation. A plain identifier stands bare and any
other field name between double quotes, where only the quote is marked; a string stands
between single quotes, where quote and backslash are marked. Operators are written between
their operands without regard to precedence.

## Implementation notes

Scripts are lists of characters up to the last step, so that statements about what may
follow a script are statements about `++`.
-/

namespace AggQuery

/-- A letter, an underscore or an at sign. -/
def isIdentifierStart (c : Char) : Bool := c.isAlpha || c = '_' || c = '@'

/-- A letter, a digit, an underscore, a point or an at sign. -/
def isIdentifierRest (c : Char) : Bool := c.isAlphanum || c = '_' || c = '.' || c = '@'

/-- Names that need no quotes; points separate nested names. -/
def isPlainIdentifier (name : List Char) : Bool :=
  match name with
  | [] => false
  | c :: rest => isIdentifierStart c && rest.all isIdentifierRest

/-- A field reference. -/
def fieldChars (name : String) : List Char :=
  if isPlainIdentifier name.toList then name.toList
  else Text.Quoted.enclose '"' (· == '"') name.toList

namespace Literal

/-- The characters of a constant. -/
def chars : Literal → List Char
  | .string s => Text.Quoted.enclose '\'' (fun c => c == '\'' || c == '\\') s.toList
  | .integer n => integerText n.toInt
  | .float x => (Layout.script.write x).toList
  | .boolean b => (if b then "true" else "false").toList
  | .duration text => text.toList
  | .null => "null".toList

end Literal

namespace Expr

mutual

/-- The characters of an expression. -/
def chars : Expr → List Char
  | .field name => fieldChars name
  | .literal value => value.chars
  | .call name args => name.toList ++ '(' :: argChars args ++ [')']
  | .binary op lhs rhs => lhs.chars ++ ' ' :: op.symbol.toList ++ ' ' :: rhs.chars
  | .unary op operand => op.symbol.toList ++ operand.chars
  | .paren inner => '(' :: inner.chars ++ [')']
  | .wildcard => ['*']

/-- The arguments of a call, a comma and a blank between them. -/
def argChars : List Expr → List Char
  | [] => []
  | arg :: args => arg.chars ++ moreArgChars args

/-- The arguments after the first, each behind a comma and a blank. -/
def moreArgChars : List Expr → List Char
  | [] => []
  | arg :: args => ',' :: ' ' :: arg.chars ++ moreArgChars args

end

/-- The script of an expression. -/
def script (e : Expr) : String := String.ofList e.chars

@[simp] theorem toList_script (e : Expr) : e.script.toList = e.chars := by
  simp [script]

end Expr

end AggQuery
