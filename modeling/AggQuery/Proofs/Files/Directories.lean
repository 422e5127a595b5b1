import AggQuery.Proofs.Files.Writing

/-!
# Making directories

The directories that are missing on the way to a file are made one by one. Whether this
succeeds or not, what was there stays as it was, and what is new are directories on that way
(`grown_makeParents`). A path on whose way a directory could not be made leads nowhere
afterwards (`exists?_of_makeParents_error`), and without `..` a path does not lead to any of
the directories that were made for it (`exists?_makeParents_eq_false`).

## Implementation notes

A way through a directory that has just been made may go up again, so a path with `..` can
come to lead to something that was there before.
-/

namespace AggQuery.FileTree

section Ways

variable {tree : FileTree} {start goal : Place} {segments : List String}

theorem walk_append (tree : FileTree) (start : Place) (front rest : List String) :
    tree.walk start (front ++ rest) =
      (tree.walk start front).bind fun place => tree.walk place rest := by
  induction front generalizing start with
  | nil => rfl
  | cons segment front ih =>
      cases hstart : tree.get? start with
      | none => simp [walk, hstart, Except.bind]
      | some entry =>
          cases entry with
          | file content => simp [walk, hstart, Except.bind]
          | directory =>
              rw [List.cons_append, walk_cons hstart, walk_cons hstart]
              cases follow start segment with
              | error e => rfl
              | ok next => exact ih next

/-- Segments that lead nowhere may be left out of a way. -/
theorem walk_filter (h : tree.walk start segments = .ok goal) :
    tree.walk start (segments.filter fun segment => segment ≠ "" && segment ≠ ".") =
      .ok goal := by
  induction segments generalizing start with
  | nil => exact h
  | cons segment segments ih =>
      have hstart := get?_of_walk_cons h
      rw [walk_cons hstart] at h
      by_cases hidle : segment = "" ∨ segment = "."
      · rw [follow, if_pos hidle] at h
        rw [List.filter_cons_of_neg (by rcases hidle with rfl | rfl <;> simp)]
        exact ih h
      · rw [List.filter_cons_of_pos (by simpa using hidle), walk_cons hstart]
        cases hnext : follow start segment with
        | error e =>
            rw [hnext] at h
            cases h
        | ok next =>
            rw [hnext] at h
            exact ih h

/-- Without going up, a way leads down to the place that its segments name. -/
theorem eq_append_of_walk (hup : ".." ∉ segments) (h : tree.walk start segments = .ok goal) :
    goal = start ++ segments.filter fun segment => segment ≠ "" && segment ≠ "." := by
  induction segments generalizing start with
  | nil => simpa [walk, eq_comm] using h
  | cons segment segments ih =>
      rw [List.mem_cons, not_or] at hup
      rw [walk_cons (get?_of_walk_cons h), follow] at h
      split at h
      · next hidle =>
          rw [List.filter_cons_of_neg (by rcases hidle with rfl | rfl <;> simp)]
          exact ih hup.2 h
      rw [if_neg (Ne.symm hup.1)] at h
      split at h
      · cases h
      · next hidle _ =>
          rw [List.filter_cons_of_pos (by simpa using hidle), ih hup.2 h, List.append_assoc,
            List.singleton_append]

theorem exists?_eq_true_iff {path : String} :
    tree.exists? path = true ↔
      ∃ place, tree.locate path = .ok place ∧ (tree.get? place).isSome = true := by
  unfold exists?
  cases tree.locate path with
  | error e => simp
  | ok place => simp

theorem exists?_of_get? {path : String} {place : Place} {entry : FileEntry}
    (hlocate : tree.locate path = .ok place) (hentry : tree.get? place = some entry) :
    tree.exists? path = true :=
  exists?_eq_true_iff.mpr ⟨place, hlocate, by rw [hentry]; rfl⟩

theorem locate_eq_ok_iff {path : String} {place : Place} :
    tree.locate path = .ok place ↔
      (path.toList.contains '\x00' = false ∧ path ≠ "" ∧ path.utf8ByteSize ≤ 4095) ∧
        tree.locateSegments (Path.isAbsolute path) (Path.segments path) = .ok place := by
  unfold locate
  cases hnull : path.toList.contains '\x00' with
  | true => simp
  | false =>
      rw [if_neg (by simp)]
      split
      · next h => simp [h]
      split
      · next h => simp [Nat.not_le.mpr h]
      · next hempty hlength => simp [hempty, Nat.not_lt.mp hlength]

end Ways

/-- Directories have been made at the ends of ways along beginnings of the segments; nothing
else has changed. -/
structure GrownAlong (before after : FileTree) (absolute : Bool) (segments : List String) :
    Prop where
  current_eq : after.current = before.current
  changes : ∀ place, after.get? place ≠ before.get? place →
    before.get? place = none ∧ after.get? place = some .directory ∧
      ∃ front, front <+: segments ∧ after.locateSegments absolute front = .ok place

namespace GrownAlong

variable {before after later : FileTree} {absolute : Bool} {segments : List String}

theorem refl (tree : FileTree) (absolute : Bool) (segments : List String) :
    GrownAlong tree tree absolute segments :=
  ⟨rfl, fun _ h => absurd rfl h⟩

/-- What was there is still there. -/
theorem kept (h : GrownAlong before after absolute segments) {place : Place} {entry : FileEntry}
    (hentry : before.get? place = some entry) : after.get? place = some entry := by
  by_cases hsame : after.get? place = before.get? place
  · rw [hsame, hentry]
  · have hnone := (h.changes place hsame).1
    rw [hentry] at hnone
    cases hnone

theorem locateSegments (h : GrownAlong before after absolute segments) {front : List String}
    {place : Place} (hlocate : before.locateSegments absolute front = .ok place) :
    after.locateSegments absolute front = .ok place := by
  unfold FileTree.locateSegments at hlocate ⊢
  rw [h.current_eq]
  exact walk_mono (fun _ => h.kept) hlocate

theorem trans (h : GrownAlong before after absolute segments)
    (h' : GrownAlong after later absolute segments) :
    GrownAlong before later absolute segments := by
  refine ⟨h'.current_eq.trans h.current_eq, fun place hne => ?_⟩
  by_cases hlater : later.get? place = after.get? place
  · rw [hlater] at hne ⊢
    obtain ⟨hnone, hdirectory, front, hfront, hlocate⟩ := h.changes place hne
    exact ⟨hnone, hdirectory, front, hfront, h'.locateSegments hlocate⟩
  · obtain ⟨hnone, hmade⟩ := h'.changes place hlater
    refine ⟨?_, hmade⟩
    cases hbefore : before.get? place with
    | none => rfl
    | some entry =>
        rw [h.kept hbefore] at hnone
        cases hnone

theorem extend (h : GrownAlong before after absolute segments) {longer : List String}
    (hlonger : segments <+: longer) : GrownAlong before after absolute longer := by
  refine ⟨h.current_eq, fun place hne => ?_⟩
  obtain ⟨hnone, hdirectory, front, hfront, hlocate⟩ := h.changes place hne
  exact ⟨hnone, hdirectory, front, hfront.trans hlonger, hlocate⟩

end GrownAlong

section Making

variable {tree after : FileTree} {absolute : Bool} {segments : List String}

theorem exists_of_makeDirectory (h : tree.makeDirectory absolute segments = .ok after) :
    ∃ place, tree.locateSegments absolute segments = .ok place ∧ tree.get? place = none ∧
      after = tree.put place .directory := by
  unfold makeDirectory at h
  cases hplace : tree.locateSegments absolute segments with
  | error e =>
      rw [hplace] at h
      cases h
  | ok place =>
      cases habove : tree.locateSegments absolute segments.dropLast with
      | error e =>
          rw [hplace, habove] at h
          cases h
      | ok above =>
          simp only [hplace, habove, bind, Except.bind] at h
          split at h
          · cases h
          · next hnone _ => exact ⟨place, rfl, hnone, (Except.ok.inj h).symm⟩
          · cases h
          · cases h

theorem grown_makeDirectory (h : tree.makeDirectory absolute segments = .ok after) :
    GrownAlong tree after absolute segments := by
  obtain ⟨place, hplace, hnone, rfl⟩ := exists_of_makeDirectory h
  have hfree : tree.get? place ≠ some .directory := by simp [hnone]
  refine ⟨rfl, fun other hne => ?_⟩
  by_cases hother : other = place
  · subst hother
    exact ⟨hnone, get?_put_self tree (ne_nil_of_get?_ne hfree) .directory, segments,
      List.prefix_rfl, walk_put .directory hfree hplace⟩
  · exact absurd (get?_put_of_ne tree .directory hother) hne

/-- What the making of directories comes to: the last one is made, or one above it cannot be
made, or the last one is looked for. -/
theorem makeDirectoriesFrom_cons (tree : FileTree) (absolute : Bool) (last : String)
    (above : List String) :
    ∃ made, (made = tree ∨ made = (tree.makeDirectoriesFrom absolute above).1) ∧
      ((∃ after, made.makeDirectory absolute (last :: above).reverse = .ok after ∧
          tree.makeDirectoriesFrom absolute (last :: above) = (after, .ok ())) ∨
        (∃ e, tree.makeDirectoriesFrom absolute above = (made, .error e) ∧
          tree.makeDirectoriesFrom absolute (last :: above) = (made, .error e)) ∨
        ∃ e, tree.makeDirectoriesFrom absolute (last :: above) =
          (made, if made.isDirectory absolute (last :: above).reverse then .ok ()
            else .error e)) := by
  generalize hrun : tree.makeDirectoriesFrom absolute (last :: above) = run
  unfold makeDirectoriesFrom at hrun
  dsimp only at hrun
  split at hrun
  · next after hmade => exact ⟨tree, .inl rfl, .inl ⟨after, hmade, hrun.symm⟩⟩
  · split at hrun
    · next made e hrest =>
        exact ⟨made, .inr (by rw [hrest]), .inr (.inl ⟨e, hrest, hrun.symm⟩)⟩
    · next made hrest =>
        refine ⟨made, .inr (by rw [hrest]), ?_⟩
        split at hrun
        · next after hmade => exact .inl ⟨after, hmade, hrun.symm⟩
        · next e _ => exact .inr (.inr ⟨e, hrun.symm⟩)
  · next e _ _ => exact ⟨tree, .inl rfl, .inr (.inr ⟨e, hrun.symm⟩)⟩

/-- Making directories, with or without success. -/
theorem grown_makeDirectoriesFrom (tree : FileTree) (absolute : Bool) (reversed : List String) :
    GrownAlong tree (tree.makeDirectoriesFrom absolute reversed).1 absolute
      reversed.reverse := by
  induction reversed generalizing tree with
  | nil => exact .refl tree absolute []
  | cons last above ih =>
      have hfront : above.reverse <+: (last :: above).reverse := by simp
      obtain ⟨made, hmade, hrun⟩ := makeDirectoriesFrom_cons tree absolute last above
      have hgrown : GrownAlong tree made absolute (last :: above).reverse := by
        rcases hmade with rfl | rfl
        · exact .refl made absolute _
        · exact (ih tree).extend hfront
      obtain ⟨after, hafter, hrun⟩ | ⟨e, -, hrun⟩ | ⟨e, hrun⟩ := hrun
      · rw [hrun]
        exact hgrown.trans (grown_makeDirectory hafter)
      · rwa [hrun]
      · rwa [hrun]

theorem isDirectory_eq_true_iff :
    tree.isDirectory absolute segments = true ↔
      ∃ place, tree.locateSegments absolute segments = .ok place ∧
        tree.get? place = some .directory := by
  unfold isDirectory
  cases tree.locateSegments absolute segments with
  | error e => simp
  | ok place => simp

/-- A way leads through directories. -/
theorem isDirectory_dropLast {place : Place} (hne : segments ≠ [])
    (h : tree.locateSegments absolute segments = .ok place) :
    tree.isDirectory absolute segments.dropLast = true := by
  rw [← List.dropLast_concat_getLast hne] at h
  unfold locateSegments at h
  rw [walk_append] at h
  cases habove : tree.walk (if absolute then [] else tree.current) segments.dropLast with
  | error e =>
      rw [habove] at h
      cases h
  | ok above =>
      rw [habove] at h
      exact isDirectory_eq_true_iff.mpr ⟨above, habove, get?_of_walk_cons h⟩

/-- Where the directories cannot be made, the last one is not there. -/
theorem not_isDirectory_of_error {reversed : List String} {e : FileError}
    (h : (tree.makeDirectoriesFrom absolute reversed).2 = .error e) :
    (tree.makeDirectoriesFrom absolute reversed).1.isDirectory absolute reversed.reverse =
      false := by
  induction reversed generalizing tree e with
  | nil => cases h
  | cons last above ih =>
      have hlast {tree : FileTree} (habove : tree.isDirectory absolute above.reverse = false) :
          tree.isDirectory absolute (last :: above).reverse = false := by
        rw [Bool.eq_false_iff]
        intro hdirectory
        obtain ⟨place, hlocate, -⟩ := isDirectory_eq_true_iff.mp hdirectory
        have hway := isDirectory_dropLast (by simp) hlocate
        rw [List.reverse_cons, List.dropLast_concat, habove] at hway
        cases hway
      obtain ⟨made, -, ⟨after, -, hrun⟩ | ⟨e', habove, hrun⟩ | ⟨e', hrun⟩⟩ :=
        makeDirectoriesFrom_cons tree absolute last above
      · rw [hrun] at h
        cases h
      · have hmade := ih (congrArg Prod.snd habove)
        rw [habove] at hmade
        rw [hrun]
        exact hlast hmade
      · rw [hrun] at h ⊢
        simp only [] at h
        split at h
        · cases h
        · next hnot => simpa using hnot

end Making

section Parents

variable {tree : FileTree} {path : String}

/-- What changes when the parents of a path are made, with or without success. -/
theorem grown_makeParents (tree : FileTree) (path : String) :
    GrownAlong tree (tree.makeParents path).1 (Path.isAbsolute path)
      (Path.components path).dropLast := by
  unfold makeParents
  split
  · exact .refl tree _ _
  · simpa using grown_makeDirectoriesFrom tree (Path.isAbsolute path)
      (Path.components path).dropLast.reverse

theorem locateSegments_components {place : Place} (h : tree.locate path = .ok place) :
    tree.locateSegments (Path.isAbsolute path) (Path.components path) = .ok place :=
  walk_filter (locate_eq_ok_iff.mp h).2

/-- Where the parents of a path cannot be made, the path leads nowhere afterwards. -/
theorem exists?_of_makeParents_error {e : FileError}
    (h : (tree.makeParents path).2 = .error e) :
    (tree.makeParents path).1.exists? path = false := by
  rw [Bool.eq_false_iff]
  intro hexists
  obtain ⟨place, hlocate, -⟩ := exists?_eq_true_iff.mp hexists
  have hnull := (locate_eq_ok_iff.mp hlocate).1.1
  have hway := locateSegments_components hlocate
  have hmake : tree.makeParents path = tree.makeDirectoriesFrom (Path.isAbsolute path)
      (Path.components path).dropLast.reverse := by
    rw [makeParents, hnull]
    rfl
  rw [hmake] at h hway
  by_cases hnone : Path.components path = []
  · rw [hnone] at h
    cases h
  · have hmissing := not_isDirectory_of_error h
    rw [List.reverse_reverse, isDirectory_dropLast hnone hway] at hmissing
    cases hmissing

/-- Whatever is there stands in a directory. -/
def WellFormed (tree : FileTree) : Prop :=
  ∀ place name, (tree.get? (place ++ [name])).isSome = true → tree.get? place = some .directory

theorem WellFormed.isSome_of_append (hwell : tree.WellFormed) {place below : Place}
    (h : (tree.get? (place ++ below)).isSome = true) : (tree.get? place).isSome = true := by
  induction below generalizing place with
  | nil => simpa using h
  | cons name below ih =>
      rw [List.append_cons] at h
      rw [hwell place name (ih h)]
      rfl

/-- A way down through directories was there before if its goal was. -/
theorem GrownAlong.walk_before {before after : FileTree} {absolute : Bool}
    {segments front : List String} (h : GrownAlong before after absolute segments)
    (hwell : before.WellFormed) {start goal : Place} (hup : ".." ∉ front)
    (hgoal : (before.get? goal).isSome = true) (hwalk : after.walk start front = .ok goal) :
    before.walk start front = .ok goal := by
  induction front generalizing start with
  | nil => exact hwalk
  | cons segment front ih =>
      have hafter := get?_of_walk_cons hwalk
      have hstart : before.get? start = some .directory := by
        rw [eq_append_of_walk hup hwalk] at hgoal
        obtain ⟨entry, hentry⟩ := Option.isSome_iff_exists.mp (hwell.isSome_of_append hgoal)
        rw [h.kept hentry] at hafter
        rwa [hafter] at hentry
      rw [walk_cons hafter] at hwalk
      rw [walk_cons hstart]
      cases hnext : follow start segment with
      | error e =>
          rw [hnext] at hwalk
          cases hwalk
      | ok next =>
          rw [hnext] at hwalk
          exact ih (fun hmem => hup (List.mem_cons_of_mem _ hmem)) hwalk

/-- Making the parents of a path that does not go up makes nothing to which it leads. -/
theorem exists?_makeParents_eq_false (hwell : tree.WellFormed) (hup : ".." ∉ Path.components path)
    (hmissing : tree.exists? path = false) : (tree.makeParents path).1.exists? path = false := by
  rw [Bool.eq_false_iff] at hmissing ⊢
  intro hexists
  obtain ⟨place, hlocate, hthere⟩ := exists?_eq_true_iff.mp hexists
  obtain ⟨hpath, hway⟩ := locate_eq_ok_iff.mp hlocate
  have hgrown := grown_makeParents tree path
  have hupward : ".." ∉ Path.segments path := by
    simpa [Path.components] using hup
  by_cases hsame : (tree.makeParents path).1.get? place = tree.get? place
  · rw [hsame] at hthere
    refine hmissing (exists?_eq_true_iff.mpr ⟨place, locate_eq_ok_iff.mpr ⟨hpath, ?_⟩, hthere⟩)
    unfold locateSegments at hway ⊢
    rw [hgrown.current_eq] at hway
    exact hgrown.walk_before hwell hupward hthere hway
  · obtain ⟨-, -, front, hfront, hmade⟩ := hgrown.changes place hsame
    have hgoal := eq_append_of_walk hupward hway
    rw [eq_append_of_walk (fun hmem => hup (List.dropLast_subset _ (hfront.subset hmem)))
      hmade] at hgoal
    have hlength := congrArg List.length (List.append_cancel_left hgoal)
    have hkept := List.length_filter_le (fun segment => segment ≠ "" && segment ≠ ".") front
    have hshort := hfront.length_le
    rw [List.length_dropLast] at hshort
    have hnone : Path.components path = [] := by
      refine List.eq_nil_of_length_eq_zero ?_
      unfold Path.components at hshort ⊢
      omega
    refine hsame ?_
    rw [makeParents, hnone]
    split <;> rfl

end Parents

end AggQuery.FileTree
