import AggQuery.Proofs.Files.Directories
import AggQuery.Proofs.Settings.RoundTrip

/-!
# Settings from a file that is made if it is missing

`loadOrCreate_cases` tells what the three outcomes are: the file is there and is loaded, it is
made with the defaults, or it cannot be made and the defaults are taken. The last one has an
exception: while the directories above a path are made, the path itself may come to lead to one
of them, and a directory is not loaded.

## Implementation notes

A path is expanded by both loaders. The second time changes nothing, as a home directory is
absolute and a path below it starts with no tilde.
-/

namespace AggQuery

namespace Path

theorem isAbsolute_append {path : String} (h : isAbsolute path = true) (rest : String) :
    isAbsolute (path ++ rest) = true := by
  unfold isAbsolute at h ⊢
  rw [beq_iff_eq] at h ⊢
  rw [String.toList_append, List.head?_append, h]
  rfl

theorem isAbsolute_join {base : String} (h : isAbsolute base = true) (path : String) :
    isAbsolute (join base path) = true := by
  unfold join
  split
  · assumption
  split
  · exact isAbsolute_append h path
  · exact isAbsolute_append (isAbsolute_append h "/") path

theorem expandTilde_of_isAbsolute (home : String) {path : String} (h : isAbsolute path = true) :
    expandTilde home path = path := by
  refine expandTilde_of_head_ne home fun htilde => ?_
  rw [isAbsolute, htilde] at h
  cases h

/-- Expanding a path twice is expanding it once. -/
theorem expandTilde_expandTilde {home : String} (hhome : isAbsolute home = true)
    (path : String) : expandTilde home (expandTilde home path) = expandTilde home path := by
  generalize hexpanded : expandTilde home path = expanded
  unfold expandTilde at hexpanded
  split at hexpanded
  · rw [← hexpanded, expandTilde_of_isAbsolute home hhome]
  · rw [← hexpanded, expandTilde_of_isAbsolute home (isAbsolute_join hhome _)]
  · next halone hbelow =>
      subst hexpanded
      unfold expandTilde
      split
      · next h => exact absurd h halone
      · next h => exact absurd h (hbelow _)
      · rfl

end Path

/-- Whether a file can be written at a path once the directories above it have been made. -/
def FileTree.canSave (tree : FileTree) (path : String) : Bool :=
  (tree.makeParents path).2.isOk && ((tree.makeParents path).1.target path).isOk

namespace Settings

section Saving

variable (settings : Settings) {path : String} {session : Session}

/-- Saving makes the directories above the file and then writes it. -/
theorem save_of_makeParents {made : FileTree}
    (hmake : session.files.makeParents path = (made, .ok ())) :
    (settings.save path : SessionM _) session =
      (FileSystem.writeText path settings.toToml : SessionM _) { session with files := made } := by
  simp [save, hmake]

theorem save_of_canSave (h : session.files.canSave path = true) :
    ∃ place, (session.files.makeParents path).1.target path = .ok place ∧
      (settings.save path : SessionM _) session = (.ok (), { session with
        files := (session.files.makeParents path).1.put place (.file settings.toToml.toUTF8) }) := by
  obtain ⟨hparents, htarget⟩ := Bool.and_eq_true_iff.mp h
  cases hmake : session.files.makeParents path with
  | mk made outcome =>
      rw [hmake] at hparents htarget
      cases outcome with
      | error e => cases hparents
      | ok done =>
          cases hplace : made.target path with
          | error e =>
              rw [hplace] at htarget
              cases htarget
          | ok place =>
              refine ⟨place, rfl, ?_⟩
              rw [save_of_makeParents settings hmake]
              exact Session.writeText_eq_ok_iff.mpr ⟨place, hplace, rfl⟩

theorem save_of_not_canSave (h : session.files.canSave path = false) :
    ∃ e, (settings.save path : SessionM _) session =
      (.error e, { session with files := (session.files.makeParents path).1 }) := by
  cases hmake : session.files.makeParents path with
  | mk made outcome =>
      cases outcome with
      | error e => exact ⟨e, by simp [save, hmake]⟩
      | ok done =>
          cases htarget : made.target path with
          | ok place => simp [FileTree.canSave, hmake, htarget, Except.isOk, Except.toBool] at h
          | error e =>
              refine ⟨e, ?_⟩
              rw [save_of_makeParents settings hmake]
              exact Session.writeText_of_target_eq_error htarget

end Saving

section Loading

variable {home path : String} {session : Session}

theorem expandPaths_default (home : String) : expandPaths home {} = {} := rfl

theorem readAt_snd (path : String) (session : Session) :
    ((readAt path : SessionM _) session).2 = session := by
  unfold readAt
  rw [Session.bind_apply, Session.exists?_apply]
  cases session.files.exists? path with
  | false => rfl
  | true =>
      simp only [if_true, Session.bind_apply, Session.readText_apply]
      cases session.files.readText path <;> rfl

/-- Loading changes nothing. -/
theorem loadFrom_snd (home path : String) (session : Session) :
    ((loadFrom home path : SessionM _) session).2 = session :=
  readAt_snd _ session

theorem loadFrom_of_missing (h : session.files.exists? (Path.expandTilde home path) = false) :
    (loadFrom home path : SessionM _) session = (.ok {}, session) := by
  simp [loadFrom, readAt, h, Except.map, expandPaths_default]

/-- The text of the defaults is loaded as the defaults. -/
theorem loadFrom_of_default (hexists : session.files.exists? (Path.expandTilde home path) = true)
    (htext : session.files.readText (Path.expandTilde home path) = .ok (toToml {})) :
    (loadFrom home path : SessionM _) session = (.ok {}, session) := by
  simp [loadFrom, readAt, hexists, htext, ofToml_toToml, Except.map, expandPaths_default]

theorem loadFrom_of_directory {place : Place}
    (hlocate : session.files.locate (Path.expandTilde home path) = .ok place)
    (hdirectory : session.files.get? place = some .directory) :
    (loadFrom home path : SessionM _) session = (.error (.file .isADirectory), session) := by
  have hexists := FileTree.exists?_of_get? hlocate hdirectory
  have hread : session.files.readText (Path.expandTilde home path) = .error .isADirectory := by
    simp [FileTree.readText, FileTree.read, hlocate, hdirectory]
  simp [loadFrom, readAt, hexists, hread, Except.map]

theorem loadFrom_expandTilde (hhome : Path.isAbsolute home = true) (path : String) :
    (loadFrom home (Path.expandTilde home path) : SessionM _) = loadFrom home path := by
  unfold loadFrom
  rw [Path.expandTilde_expandTilde hhome]

/-- A file that is there is loaded. -/
theorem loadOrCreate_of_exists (hhome : Path.isAbsolute home = true)
    (h : session.files.exists? (Path.expandTilde home path) = true) :
    (loadOrCreate home path : SessionM _) session = (loadFrom home path : SessionM _) session := by
  unfold loadOrCreate
  rw [Session.bind_apply, Session.exists?_apply, loadFrom_expandTilde hhome, h]
  rfl

/-- A file that is missing is saved, whatever comes of it, and then loaded. -/
theorem loadOrCreate_of_missing (hhome : Path.isAbsolute home = true)
    (h : session.files.exists? (Path.expandTilde home path) = false) :
    (loadOrCreate home path : SessionM _) session =
      (loadFrom home path : SessionM _)
        ((save {} (Path.expandTilde home path) : SessionM _) session).2 := by
  unfold loadOrCreate
  rw [Session.bind_apply, Session.exists?_apply, loadFrom_expandTilde hhome, h]
  rfl

/-- Settings are loaded again and again; `true` stands for a call that makes a missing file. -/
def loadAll (home path : String) (calls : List Bool) :
    SessionM (List (Except SettingsError Settings)) :=
  calls.mapM fun create => if create then loadOrCreate home path else loadFrom home path

/-- While there is a file with the text of the defaults, they are loaded again and again. -/
theorem loadAll_of_default (hhome : Path.isAbsolute home = true)
    (hexists : session.files.exists? (Path.expandTilde home path) = true)
    (htext : session.files.readText (Path.expandTilde home path) = .ok (toToml {}))
    (calls : List Bool) :
    loadAll home path calls session = (calls.map fun _ => .ok {}, session) := by
  have hcall (create : Bool) :
      (if create then loadOrCreate home path else loadFrom home path : SessionM _) session =
        (.ok {}, session) := by
    cases create with
    | false => exact loadFrom_of_default hexists htext
    | true => exact (loadOrCreate_of_exists hhome hexists).trans (loadFrom_of_default hexists htext)
  unfold loadAll
  induction calls with
  | nil => rfl
  | cons create calls ih =>
      rw [List.mapM_cons, Session.bind_apply, hcall, Session.bind_apply, ih]
      rfl

end Loading

/-- A file with this text has been made at a path, or its text replaced, and the missing
directories above it have been made; nothing else has changed. -/
structure Created (session saved : Session) (path text : String) : Prop where
  onlyFiles : saved = { session with files := saved.files }
  current_eq : saved.files.current = session.files.current
  written : saved.files.readText path = .ok text
  changes : ∀ place, saved.files.get? place ≠ session.files.get? place →
    saved.files.locate path = .ok place ∨
      session.files.get? place = none ∧ saved.files.get? place = some .directory ∧
        ∃ front, front <+: (Path.components path).dropLast ∧
          saved.files.locateSegments (Path.isAbsolute path) front = .ok place

theorem created_of_put {path : String} {session : Session} {place : Place} (text : String)
    (htarget : (session.files.makeParents path).1.target path = .ok place) :
    Created session { session with
      files := (session.files.makeParents path).1.put place (.file text.toUTF8) } path text := by
  obtain ⟨hlocate, hfree⟩ := FileTree.target_eq_ok_iff.mp htarget
  have hgrown := FileTree.grown_makeParents session.files path
  refine ⟨rfl, hgrown.current_eq, FileTree.readText_put text htarget, fun other hne => ?_⟩
  by_cases hother : other = place
  · subst hother
    exact .inl (FileTree.locate_put _ hfree hlocate)
  · rw [FileTree.get?_put_of_ne _ _ hother] at hne ⊢
    obtain ⟨hnone, hdirectory, front, hfront, hway⟩ := hgrown.changes other hne
    exact .inr ⟨hnone, hdirectory, front, hfront, FileTree.walk_put _ hfree hway⟩

/-- Where a file cannot be saved, the path leads nowhere or to a directory. -/
theorem missing_or_directory_of_not_canSave {tree : FileTree} {path : String}
    (h : tree.canSave path = false) :
    (tree.makeParents path).1.exists? path = false ∨
      ∃ place, (tree.makeParents path).1.locate path = .ok place ∧
        (tree.makeParents path).1.get? place = some .directory := by
  cases houtcome : (tree.makeParents path).2 with
  | error e => exact .inl (FileTree.exists?_of_makeParents_error houtcome)
  | ok done =>
      cases hlocate : (tree.makeParents path).1.locate path with
      | error e => exact .inl (by rw [FileTree.exists?, hlocate])
      | ok place =>
          refine .inr ⟨place, rfl, ?_⟩
          by_cases hdirectory : (tree.makeParents path).1.get? place = some .directory
          · exact hdirectory
          · have htarget := FileTree.target_eq_ok_iff.mpr ⟨hlocate, hdirectory⟩
            rw [FileTree.canSave, houtcome, htarget] at h
            cases h

/-- Loading settings with the file made if it is missing. A file that is there is loaded, and
nothing changes. A missing file that can be saved is made with the text of the defaults, and
these are what is loaded from then on. A missing file that cannot be saved stays missing and the
defaults are loaded, unless its path goes up and leads to a directory that has just been made. -/
theorem loadOrCreate_cases {home path expanded : String} (hhome : Path.isAbsolute home = true)
    (hexpanded : Path.expandTilde home path = expanded) (session : Session) :
    Path.expandTilde home expanded = expanded ∧
      (session.files.exists? expanded = true →
        (loadOrCreate home path : SessionM _) session =
            (loadFrom home path : SessionM _) session ∧
          ((loadFrom home path : SessionM _) session).2 = session) ∧
      (session.files.exists? expanded = false → session.files.canSave expanded = true →
        ∃ saved, (loadOrCreate home path : SessionM _) session = (.ok {}, saved) ∧
          Created session saved expanded (toToml {}) ∧
          ∀ calls, loadAll home path calls saved = (calls.map fun _ => .ok {}, saved)) ∧
      (session.files.exists? expanded = false → session.files.canSave expanded = false →
        ∃ left, FileTree.GrownAlong session.files left (Path.isAbsolute expanded)
            (Path.components expanded).dropLast ∧
          ((loadOrCreate home path : SessionM _) session =
                (.ok {}, { session with files := left }) ∧
              left.exists? expanded = false ∨
            (loadOrCreate home path : SessionM _) session =
                (.error (.file .isADirectory), { session with files := left }) ∧
              (∃ place, left.locate expanded = .ok place ∧
                left.get? place = some .directory) ∧
              ¬(session.files.WellFormed ∧ ".." ∉ Path.components expanded))) := by
  subst hexpanded
  refine ⟨Path.expandTilde_expandTilde hhome path, fun hexists => ?_, fun hmissing hsave => ?_,
    fun hmissing hsave => ?_⟩
  · exact ⟨loadOrCreate_of_exists hhome hexists, loadFrom_snd home path session⟩
  · obtain ⟨place, htarget, hsaved⟩ := save_of_canSave {} hsave
    obtain ⟨hexists, htext⟩ := readText_of_save {} hsaved
    refine ⟨_, ?_, created_of_put _ htarget, loadAll_of_default hhome hexists htext⟩
    rw [loadOrCreate_of_missing hhome hmissing, hsaved]
    exact loadFrom_of_default hexists htext
  · obtain ⟨e, hsaved⟩ := save_of_not_canSave {} hsave
    refine ⟨_, FileTree.grown_makeParents _ _, ?_⟩
    rw [loadOrCreate_of_missing hhome hmissing, hsaved]
    obtain hnowhere | ⟨place, hlocate, hdirectory⟩ := missing_or_directory_of_not_canSave hsave
    · exact .inl ⟨loadFrom_of_missing hnowhere, hnowhere⟩
    · refine .inr ⟨loadFrom_of_directory hlocate hdirectory, ⟨place, hlocate, hdirectory⟩, ?_⟩
      rintro ⟨hwell, hup⟩
      have hnowhere := FileTree.exists?_makeParents_eq_false hwell hup hmissing
      rw [FileTree.exists?_of_get? hlocate hdirectory] at hnowhere
      cases hnowhere

/-- From an empty tree a file below home is made; one whose path ends in a slash is not. -/
theorem loadOrCreate_cases_from_empty :
    Path.isAbsolute "/home/a" = true ∧
      Path.expandTilde "/home/a" "~/b/s.toml" = "/home/a/b/s.toml" ∧
      Path.expandTilde "/home/a" "b/" = "b/" ∧
      (∃ saved, (loadOrCreate "/home/a" "~/b/s.toml" : SessionM _) {} = (.ok {}, saved) ∧
        Created {} saved "/home/a/b/s.toml" (toToml {})) ∧
      ∃ left, (loadOrCreate "/home/a" "b/" : SessionM _) {} = (.ok {}, { files := left }) ∧
        left.exists? "b/" = false := by
  have hhome : Path.isAbsolute "/home/a" = true := rfl
  have hfile : Path.expandTilde "/home/a" "~/b/s.toml" = "/home/a/b/s.toml" := by decide +kernel
  have hslash : Path.expandTilde "/home/a" "b/" = "b/" := by decide +kernel
  have hwell : FileTree.WellFormed {} := by
    intro place name h
    simp [FileTree.get?] at h
  refine ⟨hhome, hfile, hslash, ?_, ?_⟩
  · obtain ⟨saved, hsaved, hcreated, -⟩ := (loadOrCreate_cases hhome hfile {}).2.2.1
      (by decide +kernel) (by decide +kernel)
    exact ⟨saved, hsaved, hcreated⟩
  · obtain ⟨left, -, hleft | ⟨-, -, hup⟩⟩ := (loadOrCreate_cases hhome hslash {}).2.2.2
      (by decide +kernel) (by decide +kernel)
    · exact ⟨left, hleft⟩
    · exact absurd ⟨hwell, by decide +kernel⟩ hup

/-- The directory that is made above a path can be what the path then leads to. -/
theorem loadOrCreate_up_from_new :
    Path.isAbsolute "/home/a" = true ∧ Path.expandTilde "/home/a" "new/.." = "new/.." ∧
      FileTree.exists? {} "new/.." = false ∧ FileTree.canSave {} "new/.." = false ∧
      ((loadOrCreate "/home/a" "new/.." : SessionM _) {}).1 = .error (.file .isADirectory) ∧
      ((loadOrCreate "/home/a" "new/.." : SessionM _) {}).2.files.exists? "new/.." = true := by
  decide +kernel

end Settings

end AggQuery
