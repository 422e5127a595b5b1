import AggQuery.Files.Tree

/-!
# Sessions

A command works on files, reads a text from standard input and prints to standard output.
`FileSystem` and `Console` name these operations for any monad. A session is the state in
which they are plain functions: a file tree, the bytes that may still be read, and the text
that has been printed.
-/

namespace AggQuery

/-- Operations on files. -/
class FileSystem (m : Type → Type) where
  /-- Whether a path leads to a file or directory. -/
  exists? (path : String) : m Bool
  /-- The text of a file. -/
  readText (path : String) : m (Except FileError String)
  /-- Give a file a text, whether it is there or not. -/
  writeText (path text : String) : m (Except FileError Unit)
  /-- Make sure that a file is there, and keep its content if it is. -/
  touch (path : String) : m (Except FileError Unit)
  /-- Make the directories above the last component of a path. -/
  makeParents (path : String) : m (Except FileError Unit)

/-- Standard input and output. -/
class Console (m : Type → Type) where
  /-- All of standard input. -/
  readAll : m (Except FileError String)
  /-- Add text to standard output. -/
  print (text : String) : m Unit

/-- What commands work on. -/
structure Session where
  files : FileTree := {}
  input : ByteArray := ByteArray.empty
  printed : String := ""
deriving Inhabited

/-- Commands as functions on sessions. -/
abbrev SessionM := StateM Session

namespace Session

/-- The outcome of a change of the files: the files are kept on a failure. -/
def keepOr (session : Session) : Except FileError FileTree → Except FileError Unit × Session
  | .ok files => (.ok (), { session with files })
  | .error e => (.error e, session)

end Session

instance : FileSystem SessionM where
  exists? path := fun session => (session.files.exists? path, session)
  readText path := fun session => (session.files.readText path, session)
  writeText path text := fun session =>
    session.keepOr (session.files.write path text.toUTF8)
  touch path := fun session => session.keepOr (session.files.touch path)
  makeParents path := fun session =>
    let (files, outcome) := session.files.makeParents path
    (outcome, { session with files })

instance : Console SessionM where
  readAll := fun session =>
    (match String.fromUTF8? session.input with
      | some text => .ok text
      | none => .error .invalidData, { session with input := ByteArray.empty })
  print text := fun session => ((), { session with printed := session.printed ++ text })

namespace Session

@[simp] theorem pure_apply {α : Type} (x : α) (session : Session) :
    (pure x : SessionM α) session = (x, session) := rfl

@[simp] theorem bind_apply {α β : Type} (x : SessionM α) (next : α → SessionM β)
    (session : Session) : (x >>= next) session = next (x session).1 (x session).2 := rfl

@[simp] theorem exists?_apply (path : String) (session : Session) :
    (FileSystem.exists? path : SessionM Bool) session =
      (session.files.exists? path, session) := rfl

@[simp] theorem readText_apply (path : String) (session : Session) :
    (FileSystem.readText path : SessionM _) session =
      (session.files.readText path, session) := rfl

@[simp] theorem writeText_apply (path text : String) (session : Session) :
    (FileSystem.writeText path text : SessionM _) session =
      session.keepOr (session.files.write path text.toUTF8) := rfl

@[simp] theorem touch_apply (path : String) (session : Session) :
    (FileSystem.touch path : SessionM _) session =
      session.keepOr (session.files.touch path) := rfl

@[simp] theorem makeParents_apply (path : String) (session : Session) :
    (FileSystem.makeParents path : SessionM _) session =
      ((session.files.makeParents path).2,
        { session with files := (session.files.makeParents path).1 }) := rfl

@[simp] theorem print_apply (text : String) (session : Session) :
    (Console.print text : SessionM Unit) session =
      ((), { session with printed := session.printed ++ text }) := rfl

end Session

end AggQuery
