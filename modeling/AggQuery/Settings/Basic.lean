import AggQuery.Reading.InputFormat

/-!
# Settings

What a user may set for the command: how messages are logged, how requests are written, and
which format is taken for a query document whose format nothing else tells.
-/

namespace AggQuery

/-- The forms of log messages. -/
inductive LogFormat where
  | plain
  | json
deriving DecidableEq, Inhabited, Repr

namespace LogFormat

/-- The name of a form. -/
def name : LogFormat → String
  | .plain => "plain"
  | .json => "json"

/-- The form with exactly this name. -/
def ofName? : String → Option LogFormat
  | "plain" => some .plain
  | "json" => some .json
  | _ => none

theorem ofName?_name (format : LogFormat) : ofName? format.name = some format := by
  cases format <;> rfl

end LogFormat

/-- How messages are logged. -/
structure LoggingSettings where
  level : String := "info"
  format : LogFormat := .plain
  /-- The file that messages are added to; without one they go to standard error. -/
  file : Option String := none
deriving DecidableEq, Inhabited, Repr

/-- How requests are written. -/
structure OutputSettings where
  pretty : Bool := false
  /-- Whether a line break follows the request. -/
  trailingNewline : Bool := true
deriving DecidableEq, Inhabited, Repr

/-- How query documents are read. -/
structure InputSettings where
  defaultFormat : InputFormat := .json
deriving DecidableEq, Inhabited, Repr

/-- All settings. -/
structure Settings where
  logging : LoggingSettings := {}
  output : OutputSettings := {}
  input : InputSettings := {}
deriving DecidableEq, Inhabited, Repr

end AggQuery
