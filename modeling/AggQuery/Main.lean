import AggQuery.CommandLine.Execution

/-!
# The program

The command line with the real files, standard input and standard output. The home directory
and the settings file come from the environment. Nothing is decided here.
-/

namespace AggQuery

/-- The cause of a failed operation. -/
def FileError.ofIO : IO.Error → FileError
  | .noFileOrDirectory .. => .notFound
  | .alreadyExists .. => .alreadyExists
  | .inappropriateType none 20 _ => .notADirectory
  | .inappropriateType (some _) 20 _ => .notADirectory
  | e => .other (toString e)

/-- The outcome of an operation, its failure included. -/
def attempt (action : IO α) : IO (Except FileError α) := do
  try return .ok (← action)
  catch e => return .error (FileError.ofIO e)

/-- The text that bytes stand for. -/
def decodeText (bytes : ByteArray) : Except FileError String :=
  match String.fromUTF8? bytes with
  | some text => .ok text
  | none => .error .invalidData

/-- The path of the directory that the last component of a path stands in. -/
def parentPath (path : String) : String :=
  (if Path.isAbsolute path then "/" else "") ++
    "/".intercalate (Path.components path).dropLast

instance : FileSystem IO where
  exists? path := do
    match ← attempt (IO.FS.Handle.mk path .read) with
    | .ok _ => return true
    | .error e => return e ≠ .notFound ∧ e ≠ .notADirectory
  readText path := return (← attempt (IO.FS.readBinFile path)).bind decodeText
  writeText path text := attempt (IO.FS.writeFile path text)
  touch path := return (← attempt (IO.FS.Handle.mk path .append)).map fun _ => ()
  makeParents path := do
    let parent := parentPath path
    if parent = "" then return .ok () else attempt (IO.FS.createDirAll parent)

instance : Console IO where
  readAll := return (← attempt do (← IO.getStdin).readBinToEnd).bind decodeText
  print text := do
    let output ← IO.getStdout
    output.putStr text
    output.flush

end AggQuery

/-- Run the command line. -/
def main (arguments : List String) : IO UInt32 := do
  let home := (← IO.getEnv "HOME").getD "."
  let outcome : AggQuery.Outcome ←
    AggQuery.execute home (← IO.getEnv "PRISM_SQL_CONFIG") arguments
  (← IO.getStderr).putStr outcome.report
  return outcome.exitCode.toUInt32
