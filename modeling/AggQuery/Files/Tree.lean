import AggQuery.Files.Path

/-!
# File trees

A file tree maps places to files and directories; a place is the list of names from the
root, which is always a directory. Paths are looked up from a current directory, segment by
segment, through directories only. Reading, writing and the making of directories answer
with the cause of a failure.

## Implementation notes

There are no links, so going up from a place drops its last name. A tree is a list of
entries in the order in which they were made.
-/

namespace AggQuery

/-- Why a file operation failed. -/
inductive FileError where
  | notFound
  | alreadyExists
  | notADirectory
  | isADirectory
  | invalidInput
  | invalidFilename
  | invalidData
  | other (text : String)
deriving DecidableEq, Inhabited, Repr

namespace FileError

/-- The name of a cause. -/
def name : FileError → String
  | .notFound => "NotFound"
  | .alreadyExists => "AlreadyExists"
  | .notADirectory => "NotADirectory"
  | .isADirectory => "IsADirectory"
  | .invalidInput => "InvalidInput"
  | .invalidFilename => "InvalidFilename"
  | .invalidData => "InvalidData"
  | .other _ => "Other"

/-- The text of a cause. -/
def message : FileError → String
  | .notFound => "No such file or directory (os error 2)"
  | .alreadyExists => "File exists (os error 17)"
  | .notADirectory => "Not a directory (os error 20)"
  | .isADirectory => "Is a directory (os error 21)"
  | .invalidInput => "file name contained an unexpected NUL byte"
  | .invalidFilename => "File name too long (os error 36)"
  | .invalidData => "stream did not contain valid UTF-8"
  | .other text => text

end FileError

/-- What stands at a place. -/
inductive FileEntry where
  | file (content : ByteArray)
  | directory
deriving Inhabited

/-- Equality of entries is decidable, contents byte by byte. -/
instance : DecidableEq FileEntry
  | .file a, .file b =>
    decidable_of_iff (a.data = b.data) (by rw [FileEntry.file.injEq, ByteArray.ext_iff])
  | .file _, .directory => isFalse nofun
  | .directory, .file _ => isFalse nofun
  | .directory, .directory => isTrue rfl

/-- The names from the root to a place. -/
abbrev Place := List String

/-- Files and directories below the root, and the directory in which relative paths
start. -/
structure FileTree where
  entries : List (Place × FileEntry) := []
  current : Place := []
deriving Inhabited

namespace FileTree

/-- What stands at a place. -/
def get? (tree : FileTree) (place : Place) : Option FileEntry :=
  if place = [] then some .directory else tree.entries.lookup place

/-- The entries with one entry replaced, or added at the end. -/
def putEntry (entries : List (Place × FileEntry)) (place : Place) (entry : FileEntry) :
    List (Place × FileEntry) :=
  match entries with
  | [] => [(place, entry)]
  | (p, old) :: rest =>
    if p = place then (p, entry) :: rest else (p, old) :: putEntry rest place entry

/-- Put an entry at a place. -/
def put (tree : FileTree) (place : Place) (entry : FileEntry) : FileTree :=
  { tree with entries := putEntry tree.entries place entry }

theorem lookup_putEntry_self (entries : List (Place × FileEntry)) (place : Place)
    (entry : FileEntry) : (putEntry entries place entry).lookup place = some entry := by
  induction entries with
  | nil => simp [putEntry]
  | cons e rest ih =>
      obtain ⟨p, old⟩ := e
      by_cases h : p = place
      · simp [putEntry, h]
      · have h' : (place == p) = false := by simpa using fun e => h e.symm
        simp [putEntry, h, List.lookup_cons, h', ih]

theorem lookup_putEntry_of_ne (entries : List (Place × FileEntry)) {place other : Place}
    (entry : FileEntry) (hne : other ≠ place) :
    (putEntry entries place entry).lookup other = entries.lookup other := by
  induction entries with
  | nil =>
      have h' : (other == place) = false := by simpa using hne
      simp [putEntry, List.lookup_cons, h']
  | cons e rest ih =>
      obtain ⟨p, old⟩ := e
      by_cases h : p = place
      · subst h
        have h' : (other == p) = false := by simpa using hne
        simp [putEntry, List.lookup_cons, h']
      · by_cases ho : other = p
        · subst ho
          simp [putEntry, h]
        · have h' : (other == p) = false := by simpa using ho
          simp [putEntry, h, List.lookup_cons, h', ih]

theorem get?_put_self (tree : FileTree) {place : Place} (hp : place ≠ []) (entry : FileEntry) :
    (tree.put place entry).get? place = some entry := by
  simp [get?, put, hp, lookup_putEntry_self]

theorem get?_put_of_ne (tree : FileTree) {place other : Place} (entry : FileEntry)
    (hne : other ≠ place) : (tree.put place entry).get? other = tree.get? other := by
  simp [get?, put, lookup_putEntry_of_ne _ _ hne]

@[simp] theorem current_put (tree : FileTree) (place : Place) (entry : FileEntry) :
    (tree.put place entry).current = tree.current := rfl

/-- The place that is reached from another one along segments. Each of them is looked for
in a directory, which must be there; the place itself need not. -/
def walk (tree : FileTree) (place : Place) (segments : List String) : Except FileError Place :=
  match segments with
  | [] => .ok place
  | segment :: rest =>
    match tree.get? place with
    | none => .error .notFound
    | some (.file _) => .error .notADirectory
    | some .directory =>
      if segment = "" ∨ segment = "." then walk tree place rest
      else if segment = ".." then walk tree place.dropLast rest
      else if 255 < segment.utf8ByteSize then .error .invalidFilename
      else walk tree (place ++ [segment]) rest

/-- The place that segments lead to from the root or from the current directory. -/
def locateSegments (tree : FileTree) (absolute : Bool) (segments : List String) :
    Except FileError Place :=
  tree.walk (if absolute then [] else tree.current) segments

/-- The place that a path leads to. -/
def locate (tree : FileTree) (path : String) : Except FileError Place :=
  if path.toList.contains '\x00' then .error .invalidInput
  else if path = "" then .error .notFound
  else if 4095 < path.utf8ByteSize then .error .invalidFilename
  else tree.locateSegments (Path.isAbsolute path) (Path.segments path)

/-- Whether a path leads to a file or directory. -/
def exists? (tree : FileTree) (path : String) : Bool :=
  match tree.locate path with
  | .ok place => (tree.get? place).isSome
  | .error _ => false

/-- The content of a file. -/
def read (tree : FileTree) (path : String) : Except FileError ByteArray :=
  match tree.locate path with
  | .error e => .error e
  | .ok place =>
    match tree.get? place with
    | none => .error .notFound
    | some .directory => .error .isADirectory
    | some (.file content) => .ok content

/-- The text of a file. -/
def readText (tree : FileTree) (path : String) : Except FileError String :=
  match tree.read path with
  | .error e => .error e
  | .ok content =>
    match String.fromUTF8? content with
    | some text => .ok text
    | none => .error .invalidData

/-- The place of the directory in which the last component of a path stands. -/
def parentPlace (tree : FileTree) (path : String) : Except FileError Place := do
  let place ← tree.locateSegments (Path.isAbsolute path) (Path.components path).dropLast
  match tree.get? place with
  | some .directory => .ok place
  | _ => .error .notFound

/-- The place of a file that is about to be written. A path that ends in a slash leads to
no file. -/
def target (tree : FileTree) (path : String) : Except FileError Place :=
  match tree.locate path with
  | .ok place =>
    match tree.get? place with
    | some .directory => .error .isADirectory
    | _ => .ok place
  | .error e =>
    if path.toList.getLast? = some '/' ∧ (tree.parentPlace path).isOk then .error .isADirectory
    else .error e

/-- Give a file a content, whether it is there or not. -/
def write (tree : FileTree) (path : String) (content : ByteArray) :
    Except FileError FileTree := do
  let place ← tree.target path
  .ok (tree.put place (.file content))

/-- Make sure that a file is there, and keep its content if it is. -/
def touch (tree : FileTree) (path : String) : Except FileError FileTree := do
  let place ← tree.target path
  match tree.get? place with
  | some _ => .ok tree
  | none => .ok (tree.put place (.file ByteArray.empty))

/-- Make one directory, which must not be there. -/
def makeDirectory (tree : FileTree) (absolute : Bool) (segments : List String) :
    Except FileError FileTree := do
  let place ← tree.locateSegments absolute segments
  let above ← tree.locateSegments absolute segments.dropLast
  match tree.get? place, tree.get? above with
  | some _, _ => .error .alreadyExists
  | none, some .directory => .ok (tree.put place .directory)
  | none, some (.file _) => .error .notADirectory
  | none, none => .error .notFound

/-- Whether segments lead to a directory. -/
def isDirectory (tree : FileTree) (absolute : Bool) (segments : List String) : Bool :=
  match tree.locateSegments absolute segments with
  | .ok place => tree.get? place == some .directory
  | .error _ => false

/-- Make a directory and those above it, as far as they are missing. `missing` holds, last
one first, the segments that may have to be made. The tree comes back also on a failure,
with the directories made before it. -/
def makeDirectoriesFrom (tree : FileTree) (absolute : Bool) (reversed : List String) :
    FileTree × Except FileError Unit :=
  match reversed with
  | [] => (tree, .ok ())
  | last :: above =>
    let segments := (last :: above).reverse
    match tree.makeDirectory absolute segments with
    | .ok tree => (tree, .ok ())
    | .error .notFound =>
      match makeDirectoriesFrom tree absolute above with
      | (tree, .error e) => (tree, .error e)
      | (tree, .ok ()) =>
        match tree.makeDirectory absolute segments with
        | .ok tree => (tree, .ok ())
        | .error e => (tree, if tree.isDirectory absolute segments then .ok () else .error e)
    | .error e => (tree, if tree.isDirectory absolute segments then .ok () else .error e)

/-- Make the directory that the last component of a path stands in, and those above it. -/
def makeParents (tree : FileTree) (path : String) : FileTree × Except FileError Unit :=
  if path.toList.contains '\x00' then (tree, .error .invalidInput)
  else
    tree.makeDirectoriesFrom (Path.isAbsolute path) (Path.components path).dropLast.reverse

end FileTree

end AggQuery
