import CrossRef.Fault

/-!
# Index files

An index file starts with a header that holds the directory it was made in and the position of its
trailer; the index follows, and the trailer lists the indexed files.
-/

namespace CrossRef.IndexFile

/-- The length of a header without the directory. -/
def headerLength : Nat := 25

/-- A number with leading zeros up to ten digits. -/
def tenDigits (number : Nat) : String :=
  let digits := Nat.toDigits 10 number
  String.ofList (List.replicate (10 - digits.length) '0' ++ digits)

/-- The header of an index of the given length. -/
def header (directory : String) (length : Nat) : String :=
  "cscope 15 " ++ directory ++ " -c " ++ tenDigits (directory.length + headerLength + length)

/-- The list of files: each name on a row of its own. -/
def fileList (files : List String) : String :=
  String.intercalate "\n" files ++ "\n"

/-- The trailer: no directories of their own, the number of files, the length of their list, and the
list. -/
def trailer (files : List String) : String :=
  "\n1\n.\n0\n" ++ toString files.length ++ "\n" ++ toString (fileList files).length ++ "\n" ++
    fileList files

/-- An index file. -/
def render (directory : String) (blocks files : List String) : String :=
  let index := String.join blocks
  header directory index.length ++ index ++ trailer files

/-- The texts among which every element must be one. -/
def textsFrom (position : Nat) : List Element → Except Fault (List String)
  | [] => .ok []
  | .text value :: rest => (textsFrom (position + 1) rest).map (value :: ·)
  | element :: _ => .error (.notTextAt position element.sort)

/-- Writes an index file from elements that should be texts: what gets written, and the fault that cut
it short. -/
def write (directory : String) (blocks files : List Element) : String × Option Fault :=
  match textsFrom 0 blocks, textsFrom 0 files with
  | .error fault, _ => ("", some fault)
  | .ok blocks, .error fault =>
    let index := String.join blocks
    (header directory index.length ++ index, some fault)
  | .ok blocks, .ok files => (render directory blocks files, none)

end CrossRef.IndexFile
