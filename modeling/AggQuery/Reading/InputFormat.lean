import AggQuery.Files.Path

/-!
# Input formats

A query document is written in one of two formats. A format is chosen by its name or by the
extension of the file, in either case whatever the case of the ASCII letters.
-/

namespace AggQuery

/-- The formats of query documents. -/
inductive InputFormat where
  | json
  | yaml
deriving DecidableEq, Inhabited, Repr

namespace InputFormat

/-- The name of a format. -/
def name : InputFormat → String
  | .json => "json"
  | .yaml => "yaml"

/-- The format with exactly this name. -/
def ofExactName? : String → Option InputFormat
  | "json" => some .json
  | "yaml" => some .yaml
  | _ => none

/-- The format that a name stands for; `yml` is a second name of `yaml`. -/
def ofName? (name : String) : Option InputFormat :=
  match name.toLower with
  | "json" => some .json
  | "yaml" => some .yaml
  | "yml" => some .yaml
  | _ => none

/-- The text about a name that stands for no format. -/
def unknownMessage (name : String) : String := "unknown input format: " ++ name.toLower

/-- The format that the extension of a path stands for. -/
def ofPath? (path : String) : Option InputFormat := (Path.extension? path).bind ofName?

theorem ofExactName?_name (format : InputFormat) : ofExactName? format.name = some format := by
  cases format <;> rfl

end InputFormat

end AggQuery
