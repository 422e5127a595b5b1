/-!
# File paths

A path is text with slashes between its segments; one that starts with a slash is absolute.
Its components are the segments without the empty ones and the single points, which lead
nowhere. Joining an absolute path to another gives the absolute path alone.
-/

namespace AggQuery.Path

/-- The segments of a path. There is always at least one; it may be empty. -/
def segmentsOf (path : List Char) : List (List Char) :=
  match path with
  | [] => [[]]
  | c :: rest =>
    if c = '/' then [] :: segmentsOf rest
    else
      match segmentsOf rest with
      | [] => [[c]]
      | segment :: segments => (c :: segment) :: segments

/-- The segments of a path, those that lead nowhere included. -/
def segments (path : String) : List String := (segmentsOf path.toList).map String.ofList

/-- Whether a path starts at the root. -/
def isAbsolute (path : String) : Bool := path.toList.head? == some '/'

/-- The segments that lead somewhere. -/
def components (path : String) : List String :=
  (segments path).filter fun segment => segment ≠ "" && segment ≠ "."

/-- The name of the file that a path leads to; a path that ends by going up has none. -/
def fileName? (path : String) : Option String :=
  match (components path).getLast? with
  | some name => if name = ".." then none else some name
  | none => none

/-- What follows the last point of a name, if another character stands in front of it. -/
def extensionOf? (name : List Char) : Option (List Char) :=
  let reversed := name.reverse
  let extension := reversed.takeWhile (· ≠ '.')
  match reversed.drop extension.length with
  | _ :: _ :: _ => some extension.reverse
  | _ => none

/-- The extension of the file that a path leads to. -/
def extension? (path : String) : Option String :=
  match fileName? path with
  | some name => (extensionOf? name.toList).map String.ofList
  | none => none

/-- A path below another one. -/
def join (base path : String) : String :=
  if isAbsolute path then path
  else if base.toList.getLast? = some '/' ∨ base = "" then base ++ path
  else base ++ "/" ++ path

end AggQuery.Path
