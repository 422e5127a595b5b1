import AggQuery.Files.Path
import AggQuery.Settings.Basic

/-!
# Home directories

A path may start with a tilde and a slash: what follows then starts in the home directory.
A tilde alone is the home directory. Settings are by default kept in a directory of their
own below it.
-/

namespace AggQuery

namespace Path

/-- A path without the tilde at its start. -/
def expandTilde (home path : String) : String :=
  match path.toList with
  | ['~'] => home
  | '~' :: '/' :: rest => join home (String.ofList rest)
  | _ => path

/-- A path that starts with no tilde stays as it is. -/
theorem expandTilde_of_head_ne (home : String) {path : String}
    (h : path.toList.head? ≠ some '~') : expandTilde home path = path := by
  unfold expandTilde
  split <;> simp_all

end Path

namespace Settings

/-- The directory in which settings are kept by default. -/
def defaultDirectory (home : String) : String := Path.join home ".prism-sql"

/-- The file in which settings are kept by default. -/
def defaultPath (home : String) : String := Path.join (defaultDirectory home) "config.toml"

/-- Settings in which the log file has no tilde. -/
def expandPaths (home : String) (settings : Settings) : Settings :=
  { settings with
    logging :=
      { settings.logging with file := settings.logging.file.map (Path.expandTilde home) } }

end Settings

end AggQuery
