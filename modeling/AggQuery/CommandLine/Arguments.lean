import AggQuery.Aggregation.Kind
import AggQuery.CommandLine.Options
import AggQuery.CommandLine.Translate

/-!
# Arguments

A command line asks for the version or names one command: to translate, to show the table
of kinds or the settings. The settings file may be given in front of the command or among its
options, or by the environment; the place nearest to the command wins.
-/

namespace AggQuery

/-- What a command does. -/
inductive Command where
  | translate (options : TranslateOptions)
  | kinds (family : Option AggregationFamily)
  /-- Show the settings; `create` also makes a missing settings file. -/
  | config (create : Bool)
deriving DecidableEq, Inhabited, Repr

/-- What a command line asks for. -/
inductive Invocation where
  | version
  | perform (settingsPath : Option String) (command : Command)
deriving DecidableEq, Inhabited, Repr

namespace Invocation

/-- The option that names the settings file. -/
def settingsOption : OptionSpec where
  name := "config"
  letter := some 'c'
  accepts := (· ≠ "")

/-- The option that asks for the version. -/
def versionOption : OptionSpec where
  name := "version"
  letter := some 'V'
  hasValue := false
  isLast := true

/-- The options of the command that translates. -/
def translateOptions : List OptionSpec := [
  settingsOption,
  { name := "input", letter := some 'i', accepts := (· ≠ "") },
  { name := "format", letter := some 'f', accepts := fun v => (InputFormat.ofName? v).isSome },
  { name := "pretty", hasValue := false },
  { name := "output", letter := some 'o', accepts := (· ≠ "") }]

/-- The options of the table of kinds. -/
def kindsOptions : List OptionSpec := [
  settingsOption,
  { name := "family", accepts := fun v => (AggregationFamily.ofName? v).isSome }]

/-- The options of the settings command. -/
def configOptions : List OptionSpec := [
  settingsOption,
  { name := "init", hasValue := false }]

/-- The options of a command with nothing behind them. -/
def readAllOptions (specs : List OptionSpec) (arguments : List String) :
    Except UsageError GivenOptions := do
  match ← readOptions specs [] arguments with
  | (given, []) | (given, ["--"]) => .ok given
  | (_, "--" :: argument :: _) | (_, argument :: _) => .error (.unexpected argument)

/-- The command with a name, with the options that follow it. -/
def readCommand (name : String) (arguments : List String) :
    Except UsageError (Command × GivenOptions) :=
  match name with
  | "translate" => do
    let given ← readAllOptions translateOptions arguments
    .ok (.translate {
      input := (given.lookup "input").getD "-"
      format := (given.lookup "format").bind InputFormat.ofName?
      pretty := given.has "pretty"
      output := given.lookup "output" }, given)
  | "kinds" => do
    let given ← readAllOptions kindsOptions arguments
    .ok (.kinds ((given.lookup "family").bind AggregationFamily.ofName?), given)
  | "config" => do
    let given ← readAllOptions configOptions arguments
    .ok (.config (given.has "init"), given)
  | _ => .error (.unexpected name)

/-- The settings file, out of the one in front of the command, the one among its options and
the one that the environment names. The last of these must not be empty where it counts. -/
def settingsPathOf (outer inner environment : Option String) :
    Except UsageError (Option String) :=
  if environment = some "" ∧ (outer = none ∨ inner = none) then
    .error (.refusedValue settingsOption.name "")
  else .ok (inner <|> outer <|> environment)

/-- What the arguments ask for; `environment` is the settings file that the environment
names. -/
def ofArguments (environment : Option String) (arguments : List String) :
    Except UsageError Invocation := do
  let (given, rest) ← readOptions [settingsOption, versionOption] [] arguments
  if given.has versionOption.name then return .version
  match rest with
  | [] => .error .missingCommand
  | name :: arguments =>
    let (command, options) ← readCommand name arguments
    let path ← settingsPathOf (given.lookup settingsOption.name)
      (options.lookup settingsOption.name) environment
    .ok (.perform path command)

end Invocation

end AggQuery
