import AggQuery.Document.Lexeme
import AggQuery.Number.IntegerText
import AggQuery.Number.Layout
import AggQuery.Text.Shown

/-!
# Errors of reading

A document may be well formed and still have the wrong shape. A shape error names what was
found and what was wanted. A text can fail in its form too; `ReadError` covers both.
-/

namespace AggQuery

/-- What stood where something else was wanted. -/
inductive Found where
  | null
  | boolean (b : Bool)
  | integer (n : Int)
  | float (x : Binary64)
  | string (s : String)
  | sequence
  | map
  | unitVariant
deriving DecidableEq, Inhabited, Repr

/-- How a well-formed document fails to be what was wanted. -/
inductive ShapeError where
  | missingField (name : String)
  | duplicateField (name : String)
  | unknownVariant (name : String) (expected : List String)
  | invalidType (found : Found) (wanted : String)
  | invalidValue (found : Found) (wanted : String)
  | invalidLength (length : Nat) (wanted : String)
deriving DecidableEq, Inhabited, Repr

/-- Why a text is not what was wanted. -/
inductive ReadError where
  | shape (error : ShapeError)
  | fault (fault : TextFault)
deriving DecidableEq, Inhabited, Repr

namespace Number

/-- A number as it is found. -/
def found : Number → Found
  | .integer n => .integer n
  | .float x => .float x

end Number

namespace Document

/-- A document as it is found. -/
def found : Document → Found
  | .null => .null
  | .boolean b => .boolean b
  | .number n => n.found
  | .string s => .string s
  | .array _ => .sequence
  | .object _ => .map

end Document

namespace Found

/-- What was found, in words; floating-point numbers in the given layout. -/
def describe (layout : Layout) : Found → String
  | .null => "null"
  | .boolean b => if b then "boolean `true`" else "boolean `false`"
  | .integer n => "integer `" ++ String.ofList (integerText n) ++ "`"
  | .float x => "floating point `" ++ layout.write x ++ "`"
  | .string s => "string " ++ Text.shown s
  | .sequence => "sequence"
  | .map => "map"
  | .unitVariant => "unit variant"

end Found

/-- Names between backquotes, as the choice that a message offers. -/
def choiceText (names : List String) : String :=
  match names with
  | [a] => "`" ++ a ++ "`"
  | [a, b] => "`" ++ a ++ "` or `" ++ b ++ "`"
  | _ => "one of " ++ ", ".intercalate (names.map fun name => "`" ++ name ++ "`")

namespace ShapeError

/-- The text of a shape error; floating-point numbers in the given layout. -/
def message (layout : Layout) : ShapeError → String
  | .missingField name => "missing field `" ++ name ++ "`"
  | .duplicateField name => "duplicate field `" ++ name ++ "`"
  | .unknownVariant name expected =>
    "unknown variant `" ++ name ++ "`, expected " ++ choiceText expected
  | .invalidType found wanted =>
    "invalid type: " ++ found.describe layout ++ ", expected " ++ wanted
  | .invalidValue found wanted =>
    "invalid value: " ++ found.describe layout ++ ", expected " ++ wanted
  | .invalidLength length wanted =>
    "invalid length " ++ toString length ++ ", expected " ++ wanted

end ShapeError

end AggQuery
