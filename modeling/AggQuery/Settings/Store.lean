import AggQuery.Files.Session
import AggQuery.Settings.Home
import AggQuery.Settings.OfToml
import AggQuery.Settings.Writer

/-!
# Settings in files

Settings are loaded from a file, and are the defaults where there is none. Saving makes the
missing directories. `loadOrCreate` first saves the defaults where there is no file, and
goes on if that fails.
-/

namespace AggQuery

/-- Why settings cannot be loaded. -/
inductive SettingsError where
  /-- The text is no settings text. -/
  | malformed
  | fault (fault : SettingsFault)
  | file (error : FileError)
deriving DecidableEq, Inhabited, Repr

namespace Settings

/-- The settings that a text holds. -/
def ofToml (text : String) : Except SettingsError Settings :=
  match Toml.parse text with
  | none => .error .malformed
  | some entries => (ofEntries entries).mapError .fault

variable {m : Type → Type} [Monad m] [FileSystem m]

/-- Save settings to the file at a path. -/
def save (settings : Settings) (path : String) : m (Except FileError Unit) := do
  match ← FileSystem.makeParents path with
  | .error e => return .error e
  | .ok () => FileSystem.writeText path settings.toToml

/-- The settings in the file at a path without a tilde, as they stand there. -/
def readAt (path : String) : m (Except SettingsError Settings) := do
  if ← FileSystem.exists? path then
    match ← FileSystem.readText path with
    | .error e => return .error (.file e)
    | .ok text => return ofToml text
  else return .ok {}

/-- Load the settings from the file at a path. -/
def loadFrom (home path : String) : m (Except SettingsError Settings) := do
  let outcome ← readAt (Path.expandTilde home path)
  return outcome.map (expandPaths home)

/-- Load the settings from the default place. -/
def load (home : String) : m (Except SettingsError Settings) := loadFrom home (defaultPath home)

/-- Load the settings from the file at a path; make it with the defaults if it is missing. -/
def loadOrCreate (home path : String) : m (Except SettingsError Settings) := do
  let path := Path.expandTilde home path
  if ← FileSystem.exists? path then loadFrom home path
  else
    let _ ← save {} path
    loadFrom home path

end Settings

end AggQuery
