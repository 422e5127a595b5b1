import AggQuery.Reading.InputFormat
import AggQuery.Reading.OfDocument
import AggQuery.Reading.OfText
import AggQuery.Yaml.Document

/-!
# Reading a query in a format

A JSON text is read in one pass, straight into the query. A YAML text first becomes a
document, from which the query is then read.
-/

namespace AggQuery

/-- Why an input is no query. -/
inductive InputError where
  | reading (error : ReadError)
  /-- The text is no YAML text, or one that stands for no document. -/
  | malformedYaml
deriving DecidableEq, Inhabited, Repr

namespace Query

/-- The query that a YAML text holds. -/
def ofYaml (text : String) : Except InputError Query :=
  match Yaml.parse text with
  | none => .error .malformedYaml
  | some document => (ofDocument document).mapError fun e => .reading (.shape e)

/-- The query that a text in a format holds. -/
def ofInput (format : InputFormat) (text : String) : Except InputError Query :=
  match format with
  | .json => (ofText text).mapError .reading
  | .yaml => ofYaml text

end Query

end AggQuery
