import CrossRef.Text.Rows

/-!
# Paths of storage

A path is a text of parts with slashes between them.  Joining puts a path behind a directory unless it
starts at the root by itself.  Most parts are names; an empty part and a single dot stay where they are,
and two dots go back one name.
-/

namespace CrossRef.Storage

/-- A path behind a directory; an absolute path stands for itself. -/
def join (directory path : String) : String :=
  if path.startsWith "/" then path
  else if directory.isEmpty || directory.endsWith "/" then directory ++ path
  else directory ++ "/" ++ path

/-- The characters of a path between its slashes. -/
def splitSlashes : List Char → List (List Char)
  | [] => [[]]
  | '/' :: rest => [] :: splitSlashes rest
  | char :: rest => Text.consRow char (splitSlashes rest)

/-- Goes on from some names by one part of a path. -/
def stepPart (names : List String) (part : String) : List String :=
  if part = "" || part = "." then names
  else if part = ".." then names.dropLast
  else names ++ [part]

/-- The parts of a path. -/
def partsOf (path : String) : List String :=
  (splitSlashes path.toList).map String.ofList

/-- The names that an absolute path comes to, from the root on. -/
def namesOf (path : String) : List String :=
  (partsOf path).foldl stepPart []

/-- The absolute path that stands for some names. -/
def pathOf (names : List String) : String :=
  "/" ++ String.intercalate "/" names

end CrossRef.Storage
