import AggQuery.Reading.Error
import AggQuery.Settings.Basic
import AggQuery.Toml.Reader

/-!
# Reading settings

Settings are read from the tables of a settings text in the order of the text; the first
fault is the one reported. Keys that name no setting are passed over, and settings that are
not given keep their defaults. A section may also be an array of its settings in order.

## Implementation notes

A date counts as a table without any setting. A choice is a string, or a table whose only
key is the name and whose value is empty.
-/

namespace AggQuery

/-- How a settings text fails to describe settings. -/
inductive SettingsFault where
  | shape (error : ShapeError)
  /-- A choice is neither a string nor a table. -/
  | noChoice
  /-- A table that stands for a choice has no key. -/
  | emptyChoice
  /-- A table that stands for a choice has several keys. -/
  | severalChoices
  /-- A table or array that follows the name of a choice is not empty. -/
  | filledChoice
  /-- Tables follow the name of a choice. -/
  | choiceOfTables
  /-- A value that is no table follows the name of a choice. -/
  | choiceOf (typeName : String)
deriving DecidableEq, Inhabited, Repr

namespace SettingsFault

/-- The text of a fault. -/
def message : SettingsFault → String
  | .shape error => error.message Layout.setting
  | .noChoice => "wanted string or table"
  | .emptyChoice => "wanted exactly 1 element, found 0 elements"
  | .severalChoices => "wanted exactly 1 element, more than 1 element"
  | .filledChoice => "expected empty table"
  | .choiceOfTables => "expected empty array"
  | .choiceOf typeName => "expected table, found " ++ typeName

end SettingsFault

namespace Toml.Value

/-- A value as it is found. -/
def found : Value → Found
  | .string text => .string (String.ofList text)
  | .integer n => .integer n
  | .float x => .float x
  | .boolean b => .boolean b
  | .dateTime => .map
  | .array _ => .sequence
  | .table _ _ => .map
  | .tables _ => .sequence

/-- The fault of a value that is not what was wanted. -/
def unwanted (value : Value) (wanted : String) : SettingsFault :=
  .shape (.invalidType value.found wanted)

/-- The text of a string. -/
def toText (wanted : String) : Value → Except SettingsFault String
  | .string text => .ok (String.ofList text)
  | value => .error (value.unwanted wanted)

/-- A truth value. -/
def toBoolean : Value → Except SettingsFault Bool
  | .boolean b => .ok b
  | value => .error (value.unwanted "a boolean")

/-- Whether the value that follows the name of a choice is empty. -/
def choiceEnd : Value → Except SettingsFault Unit
  | .array items => if items.isEmpty then .ok () else .error .filledChoice
  | .table _ entries => if entries.isEmpty then .ok () else .error .filledChoice
  | .tables elements => if elements.isEmpty then .ok () else .error .choiceOfTables
  | value => .error (.choiceOf value.typeName)

/-- The choice with a name, out of those with the given names. -/
def named (ofName? : String → Option α) (names : List String) (name : List Char) :
    Except SettingsFault α :=
  match ofName? (String.ofList name) with
  | some choice => .ok choice
  | none => .error (.shape (.unknownVariant (String.ofList name) names))

/-- A choice out of those with the given names. -/
def toChoice (ofName? : String → Option α) (names : List String) :
    Value → Except SettingsFault α
  | .string text => named ofName? names text
  | .table _ [] => .error .emptyChoice
  | .table _ [(key, value)] => do
    let choice ← named ofName? names key
    value.choiceEnd
    .ok choice
  | .table _ _ => .error .severalChoices
  | _ => .error .noChoice

/-- The item of an array at a position, or a default where the array is too short. -/
def itemOr (items : List Value) (position : Nat) (default : α)
    (read : Value → Except SettingsFault α) : Except SettingsFault α :=
  match items[position]? with
  | some value => read value
  | none => .ok default

/-- The settings of a section: its entries change the defaults one by one, or the items of
an array are read in order. -/
def toSection (name : String) (default : α)
    (change : α → String → Value → Except SettingsFault α)
    (ofItems : List Value → Except SettingsFault α) : Value → Except SettingsFault α
  | .table _ entries =>
    entries.foldlM (fun settings (key, value) => change settings (String.ofList key) value)
      default
  | .dateTime => .ok default
  | .array items => ofItems items
  | .tables elements => ofItems elements
  | value => .error (value.unwanted ("struct " ++ name))

end Toml.Value

open Toml (Value)

namespace LogFormat

/-- The form of log messages that a value names. -/
def ofToml : Value → Except SettingsFault LogFormat := Value.toChoice ofName? ["plain", "json"]

end LogFormat

namespace InputFormat

/-- The input format that a value names. -/
def ofToml : Value → Except SettingsFault InputFormat :=
  Value.toChoice ofExactName? ["json", "yaml"]

end InputFormat

namespace LoggingSettings

/-- Change the setting that a key names. -/
def change (logging : LoggingSettings) (key : String) (value : Value) :
    Except SettingsFault LoggingSettings :=
  match key with
  | "level" => do .ok { logging with level := ← value.toText "a string" }
  | "format" => do .ok { logging with format := ← LogFormat.ofToml value }
  | "file" => do .ok { logging with file := some (← value.toText "path string") }
  | _ => .ok logging

/-- The settings that an array holds. The file has no default there. -/
def ofItems (items : List Value) : Except SettingsFault LoggingSettings := do
  let level ← Value.itemOr items 0 "info" (Value.toText "a string")
  let format ← Value.itemOr items 1 .plain LogFormat.ofToml
  match items[2]? with
  | some value => .ok { level, format, file := some (← value.toText "path string") }
  | none => .error (.shape (.invalidLength 2 "struct LoggingConfig with 3 elements"))

/-- The settings that a value holds. -/
def ofToml : Value → Except SettingsFault LoggingSettings :=
  Value.toSection "LoggingConfig" {} change ofItems

end LoggingSettings

namespace OutputSettings

/-- Change the setting that a key names. -/
def change (output : OutputSettings) (key : String) (value : Value) :
    Except SettingsFault OutputSettings :=
  match key with
  | "pretty" => do .ok { output with pretty := ← value.toBoolean }
  | "trailing_newline" => do .ok { output with trailingNewline := ← value.toBoolean }
  | _ => .ok output

/-- The settings that an array holds. -/
def ofItems (items : List Value) : Except SettingsFault OutputSettings := do
  let pretty ← Value.itemOr items 0 false Value.toBoolean
  let trailingNewline ← Value.itemOr items 1 true Value.toBoolean
  .ok { pretty, trailingNewline }

/-- The settings that a value holds. -/
def ofToml : Value → Except SettingsFault OutputSettings :=
  Value.toSection "OutputConfig" {} change ofItems

end OutputSettings

namespace InputSettings

/-- Change the setting that a key names. -/
def change (input : InputSettings) (key : String) (value : Value) :
    Except SettingsFault InputSettings :=
  match key with
  | "default_format" => do .ok { input with defaultFormat := ← InputFormat.ofToml value }
  | _ => .ok input

/-- The settings that an array holds. -/
def ofItems (items : List Value) : Except SettingsFault InputSettings := do
  .ok { defaultFormat := ← Value.itemOr items 0 .json InputFormat.ofToml }

/-- The settings that a value holds. -/
def ofToml : Value → Except SettingsFault InputSettings :=
  Value.toSection "InputConfig" {} change ofItems

end InputSettings

namespace Settings

/-- Change the section that a key names. -/
def change (settings : Settings) (key : String) (value : Value) :
    Except SettingsFault Settings :=
  match key with
  | "logging" => do .ok { settings with logging := ← LoggingSettings.ofToml value }
  | "output" => do .ok { settings with output := ← OutputSettings.ofToml value }
  | "input" => do .ok { settings with input := ← InputSettings.ofToml value }
  | _ => .ok settings

/-- The settings that the root table of a text holds. -/
def ofEntries (entries : Toml.Entries) : Except SettingsFault Settings :=
  entries.foldlM (fun settings (key, value) => settings.change (String.ofList key) value) {}

end Settings

end AggQuery
