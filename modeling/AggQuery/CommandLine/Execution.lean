import AggQuery.CommandLine.Arguments
import AggQuery.CommandLine.KindTable
import AggQuery.Settings.Store

/-!
# Running the command line

The settings are loaded first and the log file is opened; only then does the command run. An
invocation ends well, fails with a text, or could not be understood at all.
-/

namespace AggQuery

/-- Why a command fails. -/
inductive CommandFailure where
  | load (path : Option String) (error : SettingsError)
  | makeLogDirectory (error : FileError)
  | openLog (path : String) (error : FileError)
  | translate (failure : TranslateFailure)
  | create (path : String) (error : SettingsError)
deriving DecidableEq, Inhabited, Repr

namespace CommandFailure

/-- The text of a failure. -/
def message : CommandFailure → String
  | .load none _ => "Failed to load config"
  | .load (some path) _ => "Failed to load config from " ++ path
  | .makeLogDirectory error => error.message
  | .openLog path _ => "Failed to open log file " ++ path
  | .translate failure => failure.message
  | .create path _ => "Failed to initialize config at " ++ path

end CommandFailure

/-- How an invocation ends. -/
inductive Outcome where
  | success
  | failure (cause : CommandFailure)
  | misuse (error : UsageError)
deriving DecidableEq, Inhabited, Repr

namespace Outcome

/-- The exit code of an outcome. -/
def exitCode : Outcome → UInt8
  | .success => 0
  | .failure _ => 1
  | .misuse _ => 2

/-- The text on standard error. -/
def report : Outcome → String
  | .success => ""
  | .failure cause => "Error: " ++ cause.message ++ "\n"
  | .misuse error => "error: " ++ error.message ++ "\n"

end Outcome

/-- What is printed about the version. -/
def versionText : String := "prism-sql 0.6.5\n"

variable {m : Type → Type} [Monad m] [FileSystem m] [Console m]

/-- Make sure that the log file is there. -/
def openLog (settings : Settings) : m (Except CommandFailure Unit) := do
  match settings.logging.file with
  | none => return .ok ()
  | some path =>
    match ← FileSystem.makeParents path with
    | .error e => return .error (.makeLogDirectory e)
    | .ok () => return (← FileSystem.touch path).mapError (.openLog path)

/-- Load the settings from a file, or from the default place. -/
def loadSettings (home : String) (path : Option String) :
    m (Except CommandFailure Settings) := do
  match path with
  | some file => return (← Settings.loadFrom home file).mapError (.load path)
  | none => return (← Settings.load home).mapError (.load path)

namespace Command

/-- Run a command under settings that have been loaded from the given file. -/
def run (home : String) (path : Option String) (settings : Settings) :
    Command → m (Except CommandFailure Unit)
  | .translate options => do
    return (← options.run settings).mapError .translate
  | .kinds family => do
    Console.print (AggregationKind.table family)
    return .ok ()
  | .config false => do
    Console.print settings.toToml
    return .ok ()
  | .config true => do
    let path := path.getD (Settings.defaultPath home)
    match ← Settings.loadOrCreate home path with
    | .error e => return .error (.create path e)
    | .ok settings =>
      Console.print settings.toToml
      return .ok ()

end Command

namespace Invocation

/-- Run what a command line asks for. -/
def run (home : String) : Invocation → m (Except CommandFailure Unit)
  | .version => do
    Console.print versionText
    return .ok ()
  | .perform path command => do
    match ← loadSettings home path with
    | .error failure => return .error failure
    | .ok settings =>
      match ← openLog settings with
      | .error failure => return .error failure
      | .ok () => command.run home path settings

end Invocation

/-- Run a command line: its arguments, the home directory, and the settings file that the
environment names. -/
def execute (home : String) (environment : Option String) (arguments : List String) :
    m Outcome := do
  match Invocation.ofArguments environment arguments with
  | .error e => return .misuse e
  | .ok invocation =>
    match ← invocation.run home with
    | .error cause => return .failure cause
    | .ok () => return .success

end AggQuery
