import AggQuery.Settings.Basic
import AggQuery.Toml.Quoted

/-!
# Writing settings

Settings are written as three sections with a blank line between two of them. Every setting
is written, except for a log file that is not set.
-/

namespace AggQuery.Settings

/-- A line that gives a key a value. -/
def line (key : String) (value : List Char) : List Char :=
  key.toList ++ " = ".toList ++ value ++ ['\n']

/-- A line that gives a key a string. -/
def stringLine (key value : String) : List Char := line key (Toml.Quoted.write value.toList)

/-- A line that gives a key a truth value. -/
def booleanLine (key : String) (value : Bool) : List Char :=
  line key (if value then "true".toList else "false".toList)

/-- The header of a section. -/
def header (name : String) : List Char := '[' :: name.toList ++ [']', '\n']

/-- The section on logging. -/
def loggingText (logging : LoggingSettings) : List Char :=
  header "logging" ++ stringLine "level" logging.level ++
    stringLine "format" logging.format.name ++
    match logging.file with
    | none => []
    | some file => stringLine "file" file

/-- The section on output. -/
def outputText (output : OutputSettings) : List Char :=
  header "output" ++ booleanLine "pretty" output.pretty ++
    booleanLine "trailing_newline" output.trailingNewline

/-- The section on input. -/
def inputText (input : InputSettings) : List Char :=
  header "input" ++ stringLine "default_format" input.defaultFormat.name

/-- The text of settings. -/
def toToml (settings : Settings) : String :=
  String.ofList (loggingText settings.logging ++ '\n' :: outputText settings.output ++
    '\n' :: inputText settings.input)

end AggQuery.Settings
