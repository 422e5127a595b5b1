import AggQuery.Files.Session
import AggQuery.Reading.OfInput
import AggQuery.Request.Translate
import AggQuery.Settings.Basic

/-!
# Translating a file

A query document is read from a file or from standard input, and its request is written to
a file or printed. Nothing is written before the request is complete, so a run that fails
leaves everything as it was.
-/

namespace AggQuery

/-- What a user may ask for. -/
structure TranslateOptions where
  /-- The path of the query document; a lone hyphen is standard input. -/
  input : String := "-"
  format : Option InputFormat := none
  pretty : Bool := false
  /-- The path for the request; without one it is printed. -/
  output : Option String := none
deriving DecidableEq, Inhabited, Repr

/-- Why a query document is not translated. -/
inductive TranslateFailure where
  | readInput (error : FileError)
  | readFile (path : String) (error : FileError)
  | parse (path : String) (error : InputError)
  | translate (error : TranslateError)
  | write (path : String) (error : FileError)
deriving DecidableEq, Inhabited, Repr

namespace TranslateError

/-- The text of an error with its code. -/
def report (error : TranslateError) : String :=
  "Translation failed (" ++ error.code ++ "): " ++ error.message

end TranslateError

namespace TranslateFailure

/-- The text of a failure. -/
def message : TranslateFailure → String
  | .readInput _ => "Failed to read query from stdin"
  | .readFile path _ => "Failed to read " ++ path
  | .parse path _ => "Failed to parse query document " ++ path
  | .translate error => error.report
  | .write path _ => "Failed to write DSL to " ++ path

end TranslateFailure

/-- Whether a path stands for standard input. -/
def isStandardInput (path : String) : Bool :=
  (Path.segments path).head? == some "-" && Path.components path == ["-"]

namespace Query

/-- The text of a query's request, indented or compact. -/
def requestTextIn (pretty : Bool) (query : Query) : Except TranslateError String :=
  if pretty then query.requestTextPretty else query.requestText

end Query

namespace TranslateOptions

/-- The format of the query document: the given one, else that of the path, else the
default. -/
def formatOf (options : TranslateOptions) (settings : Settings) : InputFormat :=
  (options.format <|> InputFormat.ofPath? options.input).getD settings.input.defaultFormat

/-- What is written for the text of a query document. -/
def resultOf (options : TranslateOptions) (settings : Settings) (text : String) :
    Except TranslateFailure String := do
  let query ← (Query.ofInput (options.formatOf settings) text).mapError (.parse options.input)
  let request ← (query.requestTextIn (options.pretty || settings.output.pretty)).mapError
    .translate
  .ok (if settings.output.trailingNewline then request ++ "\n" else request)

variable {m : Type → Type} [Monad m] [FileSystem m] [Console m]

/-- The text of the query document. -/
def content (options : TranslateOptions) : m (Except TranslateFailure String) := do
  if isStandardInput options.input then
    return (← Console.readAll).mapError .readInput
  else return (← FileSystem.readText options.input).mapError (.readFile options.input)

/-- Write a request to where it is asked for. -/
def deliver (options : TranslateOptions) (text : String) :
    m (Except TranslateFailure Unit) := do
  match options.output with
  | some path => return (← FileSystem.writeText path text).mapError (.write path)
  | none =>
    Console.print text
    return .ok ()

/-- Translate one query document. -/
def run (options : TranslateOptions) (settings : Settings) :
    m (Except TranslateFailure Unit) := do
  match (← options.content).bind (options.resultOf settings) with
  | .error failure => return .error failure
  | .ok text => options.deliver text

end TranslateOptions

end AggQuery
