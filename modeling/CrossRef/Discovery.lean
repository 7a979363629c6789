import CrossRef.Storage.Entry

/-!
# Discovery of source files

Which files are indexed for some arguments: an argument that names a directory stands for the source
files in it, and any other argument for itself if it has the name of a source file.
-/

namespace CrossRef.Discovery

open Storage

/-- Whether a name is that of a source file. -/
def isSource (name : String) : Bool :=
  name.endsWith ".py"

mutual

/-- The source files that an entry of a directory stands for. -/
def ofEntry (recurse : Bool) (directory : String) : Entry → List String
  | .directory name entries =>
    if recurse then ofEntries recurse (join directory name) entries
    else if isSource name then [join directory name] else []
  | .file name _ => if isSource name then [join directory name] else []
  | .sealed name _ => if isSource name then [join directory name] else []

/-- The source files that some entries of a directory stand for, in order. -/
def ofEntries (recurse : Bool) (directory : String) : List Entry → List String
  | [] => []
  | entry :: rest => ofEntry recurse directory entry ++ ofEntries recurse directory rest

end

/-- The source files of a directory. -/
def inDirectory (disk : Disk) (recurse : Bool) (directory : String) : Except Fault (List String) :=
  (disk.list (join disk.base directory)).map (ofEntries recurse directory)

/-- The source files that an argument stands for. -/
def ofArgument (disk : Disk) (recurse : Bool) (argument : String) : List String :=
  match disk.find (join disk.base argument) with
  | .ok (.directory _ entries) => ofEntries recurse argument entries
  | _ => if isSource argument then [argument] else []

/-- The source files that some arguments stand for, in order. -/
def ofArguments (disk : Disk) (recurse : Bool) (arguments : List String) : List String :=
  arguments.flatMap (ofArgument disk recurse)

end CrossRef.Discovery
