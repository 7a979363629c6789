import CrossRef.Fault
import CrossRef.Storage.Path

/-!
# Files and directories

A directory holds entries in the order in which they are listed.  Paths lead to entries from the root
directory of a disk, starting at the directory in which a command runs.
-/

namespace CrossRef.Storage

/-- An entry of a directory. -/
inductive Entry where
  | file (name : String) (text : String)
  /-- A file that cannot be opened. -/
  | sealed (name : String) (errno : Errno)
  | directory (name : String) (entries : List Entry)
  deriving Repr, Inhabited

namespace Entry

def name : Entry → String
  | .file name _ | .sealed name _ | .directory name _ => name

def isDirectory : Entry → Bool
  | .directory .. => true
  | _ => false

/-- The entry that some names lead to from another one. -/
def descend (entry : Entry) : List String → Except Errno Entry
  | [] => .ok entry
  | name :: rest =>
    match entry with
    | .directory _ entries =>
      match entries.find? (·.name = name) with
      | some child => child.descend rest
      | none => .error .notFound
    | _ => .error .notDirectory

/-- The names that the parts of a path lead to, going on from some names.  Every part starts from a
directory: no part leads anywhere from what does not exist or from a file. -/
def follow (root : Entry) (names : List String) : List String → Except Errno (List String)
  | [] => .ok names
  | part :: rest =>
    match root.descend names with
    | .ok (.directory ..) => root.follow (stepPart names part) rest
    | .ok _ => .error .notDirectory
    | .error errno => .error errno

/-- Puts an entry in the place of the one with the same name. -/
def replace (entries : List Entry) (entry : Entry) : List Entry :=
  entries.map fun other => if other.name = entry.name then entry else other

/-- An entry with a text written to the file that some names lead to; a new file comes last in its
directory, which must exist. -/
def write (text : String) (entry : Entry) : List String → Except Errno Entry
  | [] =>
    match entry with
    | .file name _ => .ok (.file name text)
    | .sealed _ errno => .error errno
    | .directory .. => .error .isDirectory
  | name :: rest =>
    match entry with
    | .directory own entries =>
      match entries.find? (·.name = name), rest with
      | some child, rest => (write text child rest).map fun changed => .directory own (replace entries changed)
      | none, [] => .ok (.directory own (entries ++ [.file name text]))
      | none, _ :: _ => .error .notFound
    | _ => .error .notDirectory

end Entry

/-- How a disk looks up a path. -/
inductive Lookup where
  /-- Part by part, so that two dots go back only from a directory that exists. -/
  | stepwise
  /-- By the names that are left when the dots in it have been worked out, whatever they go back from. -/
  | simplified
  deriving DecidableEq, Repr

/-- A root directory and the absolute path of the directory in which a command runs. -/
structure Disk where
  root : Entry
  base : String
  lookup : Lookup := .stepwise
  deriving Repr

namespace Disk

/-- A disk whose base directory holds some entries; the directories above it hold nothing else. -/
def ofEntries (base : String) (entries : List Entry) : Disk where
  base := base
  root := .directory "" ((namesOf base).foldr (fun name inner => [.directory name inner]) entries)

/-- The names from the root on that a path leads to, seen from the base directory. -/
def locate (disk : Disk) (path : String) : Except Errno (List String) :=
  match disk.lookup with
  | .stepwise => disk.root.follow [] (partsOf (join disk.base path))
  | .simplified => .ok (namesOf (join disk.base path))

def find (disk : Disk) (path : String) : Except Errno Entry :=
  match disk.locate path with
  | .ok names => disk.root.descend names
  | .error errno => .error errno

def isDirectory (disk : Disk) (path : String) : Bool :=
  match disk.find path with
  | .ok entry => entry.isDirectory
  | .error _ => false

/-- The entries of a directory, in order. -/
def list (disk : Disk) (path : String) : Except Fault (List Entry) :=
  match disk.find path with
  | .ok (.directory _ entries) => .ok entries
  | .ok _ => .error (.storage .notDirectory path)
  | .error errno => .error (.storage errno path)

/-- The text of a file, with uniform line ends. -/
def read (disk : Disk) (path : String) : Except Fault String :=
  match disk.find path with
  | .ok (.file _ text) => .ok (String.ofList (Text.uniformNewlines text.toList))
  | .ok (.sealed _ errno) => .error (.storage errno path)
  | .ok (.directory ..) => .error (.storage .isDirectory path)
  | .error errno => .error (.storage errno path)

/-- The disk after a text has been written to a file. -/
def write (disk : Disk) (path text : String) : Except Fault Disk :=
  match disk.locate path with
  | .error errno => .error (.storage errno path)
  | .ok names =>
    match disk.root.write text names with
    | .ok root => .ok { disk with root := root }
    | .error errno => .error (.storage errno path)

end Disk

end CrossRef.Storage
