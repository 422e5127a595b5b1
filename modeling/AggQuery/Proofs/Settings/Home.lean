import AggQuery.Proofs.Settings.LoadOrCreate

/-!
# Paths below a home directory

A path that starts with a tilde and a slash goes on from the home directory: its components are
those of the home directory and then those of what follows. There is one exception. What follows
may start with a slash as well; then it is a path from the root, which takes the place of the
home directory instead of going on from it.

`Path.Expands` lists the forms that a path can have. Log files and the files that settings are
loaded from are found by it (`Settings.expandTilde_expands`).
-/

namespace AggQuery

namespace Path

theorem segmentsOf_ne_nil (path : List Char) : segmentsOf path ≠ [] := by
  cases path with
  | nil => exact List.cons_ne_nil _ _
  | cons c rest =>
      unfold segmentsOf
      split
      · exact List.cons_ne_nil _ _
      · split <;> exact List.cons_ne_nil _ _

/-- A slash ends a segment. -/
theorem segmentsOf_append_slash (front rest : List Char) :
    segmentsOf (front ++ '/' :: rest) = segmentsOf front ++ segmentsOf rest := by
  induction front with
  | nil => simp [segmentsOf]
  | cons c front ih =>
      by_cases hc : c = '/'
      · simp [segmentsOf, hc, ih]
      · obtain ⟨segment, segments, hsegments⟩ :=
          List.exists_cons_of_ne_nil (segmentsOf_ne_nil front)
        simp [segmentsOf, hc, ih, hsegments]

theorem components_append_slash (front rest : String) :
    components (front ++ "/" ++ rest) = components front ++ components rest := by
  have hsegments : segments (front ++ "/" ++ rest) = segments front ++ segments rest := by
    simp [segments, segmentsOf_append_slash]
  rw [components, hsegments, List.filter_append]
  rfl

/-- A slash at the end of a path is no component. -/
theorem components_slash (front : String) : components (front ++ "/") = components front := by
  calc
    components (front ++ "/") = components (front ++ "/" ++ "") := by rw [String.append_empty]
    _ = components front ++ components "" := components_append_slash front ""
    _ = components front := List.append_nil _

/-- A path that goes on from another one has the components of both. -/
theorem components_join (base : String) {path : String} (h : isAbsolute path = false) :
    components (join base path) = components base ++ components path := by
  unfold join
  rw [if_neg (by simp [h])]
  split
  · next hbase =>
      rcases hbase with hslash | rfl
      · -- The slash at the end of the base is the one between the two.
        obtain ⟨front, hfront⟩ := List.getLast?_eq_some_iff.mp hslash
        obtain rfl : base = String.ofList front ++ "/" :=
          String.toList_inj.mp (by simp [hfront])
        rw [components_append_slash, components_slash]
      · rw [String.empty_append]
        rfl
  · exact components_append_slash base path

theorem expandTilde_slash (home rest : String) :
    expandTilde home ("~/" ++ rest) = join home rest := by
  simp [expandTilde]

/-- What follows the tilde and its slash stays below the home directory unless it is a path
from the root that leads elsewhere. -/
theorem components_prefix_expandTilde_iff (home rest : String) :
    components home <+: components (expandTilde home ("~/" ++ rest)) ↔
      isAbsolute rest = false ∨ components home <+: components rest := by
  rw [expandTilde_slash]
  cases hrest : isAbsolute rest with
  | true =>
      rw [join, if_pos hrest]
      simp
  | false =>
      rw [components_join home hrest]
      simp

/-- What a path is without its tilde. -/
inductive Expands (home : String) : String → String → Prop
  | alone : Expands home "~" home
  | below {rest path : String} (hrest : isAbsolute rest = false) (hpath : isAbsolute path = true)
      (hcomponents : components path = components home ++ components rest) :
      Expands home ("~/" ++ rest) path
  /-- What follows the slash is a path from the root and stays as it is. -/
  | rooted {rest : String} (hrest : isAbsolute rest = true) : Expands home ("~/" ++ rest) rest
  | other {path : String} (halone : path ≠ "~") (hbelow : ∀ rest, path ≠ "~/" ++ rest) :
      Expands home path path

theorem expands {home : String} (hhome : isAbsolute home = true) (path : String) :
    Expands home path (expandTilde home path) := by
  by_cases halone : path = "~"
  · subst halone
    exact .alone
  by_cases hbelow : ∃ rest, path = "~/" ++ rest
  · obtain ⟨rest, rfl⟩ := hbelow
    rw [expandTilde_slash]
    cases hrest : isAbsolute rest with
    | true =>
        rw [join, if_pos hrest]
        exact .rooted hrest
    | false => exact .below hrest (isAbsolute_join hhome rest) (components_join home hrest)
  · have hstays : expandTilde home path = path := by
      unfold expandTilde
      split
      · next hpath => exact absurd (String.toList_inj.mp hpath) halone
      · next rest hpath =>
          refine absurd ⟨String.ofList rest, ?_⟩ hbelow
          exact String.toList_inj.mp (by simp [hpath])
      · rfl
    rw [hstays]
    exact .other halone (not_exists.mp hbelow)

end Path

namespace Settings

/-- Load the settings from the file at just this path. -/
def loadHere (home path : String) : SessionM (Except SettingsError Settings) := do
  let outcome ← readAt path
  return outcome.map (expandPaths home)

/-- Load the settings from the file at just this path; make it if it is missing. -/
def loadOrCreateHere (home path : String) : SessionM (Except SettingsError Settings) := do
  if ← FileSystem.exists? path then loadHere home path
  else
    let _ ← save {} path
    loadHere home path

theorem loadFrom_eq_loadHere (home path : String) :
    loadFrom home path = loadHere home (Path.expandTilde home path) := rfl

/-- The second expansion of a path changes nothing. -/
theorem loadOrCreate_eq_loadOrCreateHere {home : String} (hhome : Path.isAbsolute home = true)
    (path : String) :
    loadOrCreate home path = loadOrCreateHere home (Path.expandTilde home path) := by
  rw [loadOrCreate, loadOrCreateHere, loadFrom_eq_loadHere, Path.expandTilde_expandTilde hhome]

/-- Below an absolute home directory, a path whose tilde and slash no other slash follows
expands to the components of the home directory and then its own; only a path from the root
behind them leaves the home directory, and a path without a tilde stays as it is. Log files
are expanded like that, and settings are loaded from the file at the expanded path and no
other one. -/
theorem expandTilde_expands {home : String} (hhome : Path.isAbsolute home = true) :
    (∀ path, Path.Expands home path (Path.expandTilde home path)) ∧
      (∀ rest, Path.components home <+: Path.components (Path.expandTilde home ("~/" ++ rest)) ↔
        Path.isAbsolute rest = false ∨ Path.components home <+: Path.components rest) ∧
      (∀ settings file, settings.logging.file = some file →
        ∃ expanded, (expandPaths home settings).logging.file = some expanded ∧
          Path.Expands home file expanded) ∧
      ∀ path, ∃ expanded, Path.Expands home path expanded ∧
        loadFrom home path = loadHere home expanded ∧
        loadOrCreate home path = loadOrCreateHere home expanded := by
  refine ⟨Path.expands hhome, Path.components_prefix_expandTilde_iff home, ?_, ?_⟩
  · intro settings file hfile
    refine ⟨_, ?_, Path.expands hhome file⟩
    rw [expandPaths, hfile, Option.map_some]
  · intro path
    exact ⟨_, Path.expands hhome path, loadFrom_eq_loadHere home path,
      loadOrCreate_eq_loadOrCreateHere hhome path⟩

/-- Slashes and points in what follows the tilde change nothing. -/
theorem expandTilde_expands_loosely :
    Path.isAbsolute "/home/a" = true ∧
      Path.Expands "/home/a" "~/b//./c" (Path.expandTilde "/home/a" "~/b//./c") ∧
      Path.components (Path.expandTilde "/home/a" "~/b//./c") = ["home", "a", "b", "c"] ∧
      ∃ expanded, Path.Expands "/home/a" "~/b//./c" expanded ∧
        loadFrom "/home/a" "~/b//./c" = loadHere "/home/a" expanded ∧
        loadOrCreate "/home/a" "~/b//./c" = loadOrCreateHere "/home/a" expanded := by
  have hhome : Path.isAbsolute "/home/a" = true := by decide +kernel
  obtain ⟨hexpands, -, -, hloads⟩ := expandTilde_expands hhome
  exact ⟨hhome, hexpands _, by decide +kernel, hloads _⟩

/-- A second slash behind the tilde leads out of the home directory. -/
theorem expandTilde_secondSlash :
    Path.isAbsolute "/home/a" = true ∧ Path.expandTilde "/home/a" "~//x" = "/x" ∧
      Path.components "/home/a" ++ Path.components "/x" = ["home", "a", "x"] ∧
      Path.components (Path.expandTilde "/home/a" "~//x") = ["x"] ∧
      ¬Path.components "/home/a" <+: Path.components (Path.expandTilde "/home/a" "~//x") := by
  decide +kernel

end Settings

end AggQuery
