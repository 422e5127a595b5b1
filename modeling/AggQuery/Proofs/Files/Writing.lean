import AggQuery.Files.Session

/-!
# Writing a file and reading it

A file that has been written is read back under the same path. What makes it so is that the
way to a file leads through directories only, and the place of a file is none.
-/

namespace AggQuery

namespace FileTree

section Places

variable {tree : FileTree} {path : String} {place : Place}

/-- A file may be written where a path leads, unless a directory stands there. -/
theorem target_eq_ok_iff : tree.target path = .ok place ↔
    tree.locate path = .ok place ∧ tree.get? place ≠ some .directory := by
  unfold target
  cases hlocate : tree.locate path with
  | error e =>
      simp only [reduceCtorEq, false_and, iff_false]
      split <;> simp
  | ok found =>
      simp only []
      split
      · next hdirectory =>
          refine iff_of_false nofun ?_
          rintro ⟨hfound, hfree⟩
          exact hfree (Except.ok.inj hfound ▸ hdirectory)
      · next hfree =>
          simp only [Except.ok.injEq, ne_eq]
          constructor
          · rintro rfl
            exact ⟨rfl, hfree⟩
          · exact And.left

theorem ne_nil_of_get?_ne (h : tree.get? place ≠ some .directory) : place ≠ [] := by
  rintro rfl
  simp [get?] at h

/-- Where a segment leads from a directory. -/
def follow (place : Place) (segment : String) : Except FileError Place :=
  if segment = "" ∨ segment = "." then .ok place
  else if segment = ".." then .ok place.dropLast
  else if 255 < segment.utf8ByteSize then .error .invalidFilename
  else .ok (place ++ [segment])

theorem walk_cons {start : Place} (hstart : tree.get? start = some .directory)
    (segment : String) (segments : List String) :
    tree.walk start (segment :: segments) =
      (follow start segment).bind fun place => tree.walk place segments := by
  rw [walk, hstart, follow]
  simp only []
  split
  · rfl
  split
  · rfl
  split <;> rfl

/-- Every place on a way that goes on is a directory. -/
theorem get?_of_walk_cons {start goal : Place} {segment : String} {segments : List String}
    (hwalk : tree.walk start (segment :: segments) = .ok goal) :
    tree.get? start = some .directory := by
  unfold walk at hwalk
  split at hwalk
  · cases hwalk
  · cases hwalk
  · assumption

/-- A way leads to the same place in any tree in which its directories are still there. -/
theorem walk_mono {after : FileTree}
    (hkept : ∀ place, tree.get? place = some .directory → after.get? place = some .directory)
    {start goal : Place} {segments : List String} (hwalk : tree.walk start segments = .ok goal) :
    after.walk start segments = .ok goal := by
  induction segments generalizing start with
  | nil => exact hwalk
  | cons segment segments ih =>
      have hstart := get?_of_walk_cons hwalk
      rw [walk_cons hstart] at hwalk
      rw [walk_cons (hkept start hstart)]
      cases hnext : follow start segment with
      | error e =>
          rw [hnext] at hwalk
          cases hwalk
      | ok next =>
          rw [hnext] at hwalk
          exact ih hwalk

/-- The place of a file is on the way to no other place. -/
theorem walk_put (entry : FileEntry) (hfree : tree.get? place ≠ some .directory)
    {start goal : Place} {segments : List String}
    (hwalk : tree.walk start segments = .ok goal) :
    (tree.put place entry).walk start segments = .ok goal := by
  refine walk_mono (fun other hother => ?_) hwalk
  have hne : other ≠ place := by
    rintro rfl
    exact hfree hother
  rw [get?_put_of_ne _ _ hne, hother]

theorem locate_put (entry : FileEntry) (hfree : tree.get? place ≠ some .directory)
    {goal : Place} (hlocate : tree.locate path = .ok goal) :
    (tree.put place entry).locate path = .ok goal := by
  unfold locate at hlocate ⊢
  split at hlocate
  · cases hlocate
  split at hlocate
  · cases hlocate
  split at hlocate
  · cases hlocate
  · next hnull hempty hlength =>
    simp only [hnull, hempty, hlength, if_false]
    exact walk_put entry hfree hlocate

/-- A file that has just been written is there. -/
theorem exists?_put (content : ByteArray) (htarget : tree.target path = .ok place) :
    (tree.put place (.file content)).exists? path = true := by
  obtain ⟨hlocate, hfree⟩ := target_eq_ok_iff.mp htarget
  rw [exists?, locate_put _ hfree hlocate]
  simp [get?_put_self _ (ne_nil_of_get?_ne hfree)]

/-- A file that has just been written has the content that was written. -/
theorem read_put (content : ByteArray) (htarget : tree.target path = .ok place) :
    (tree.put place (.file content)).read path = .ok content := by
  obtain ⟨hlocate, hfree⟩ := target_eq_ok_iff.mp htarget
  rw [read, locate_put _ hfree hlocate]
  simp [get?_put_self _ (ne_nil_of_get?_ne hfree)]

theorem fromUTF8?_toUTF8 (text : String) : String.fromUTF8? text.toUTF8 = some text := by
  simp only [String.fromUTF8?, String.toUTF8_eq_toByteArray, dif_pos text.isValidUTF8]
  rfl

/-- A file that has just been written has the text that was written. -/
theorem readText_put (text : String) (htarget : tree.target path = .ok place) :
    (tree.put place (.file text.toUTF8)).readText path = .ok text := by
  rw [readText, read_put _ htarget]
  simp only [fromUTF8?_toUTF8]

end Places

end FileTree

namespace Session

variable {path text : String} {session written : Session}

/-- Writing succeeds where there is a place for the file, and changes nothing else. -/
theorem writeText_eq_ok_iff :
    (FileSystem.writeText path text : SessionM _) session = (.ok (), written) ↔
      ∃ place, session.files.target path = .ok place ∧
        written = { session with files := session.files.put place (.file text.toUTF8) } := by
  rw [writeText_apply, FileTree.write]
  cases session.files.target path with
  | error e => exact iff_of_false (fun h => nomatch congrArg Prod.fst h) (by simp)
  | ok place =>
      constructor
      · exact fun h => ⟨place, rfl, (congrArg Prod.snd h).symm⟩
      · rintro ⟨_, hplace, rfl⟩
        cases hplace
        rfl

/-- Writing fails where there is no place for the file, and changes nothing. -/
theorem writeText_of_target_eq_error {e : FileError}
    (htarget : session.files.target path = .error e) :
    (FileSystem.writeText path text : SessionM _) session = (.error e, session) := by
  rw [writeText_apply, FileTree.write, htarget]
  rfl

end Session

end AggQuery
