import CrossRef.Dump
import CrossRef.Storage.Entry
import CrossRef.Walk

/-!
# Indexing of sources

A source text is read to a tree, and a walk of the tree gives its blocks.  A file contributes a file
mark and its blocks; a file whose source is condemned keeps its mark and is reported, and the others are
indexed as if it were not there.
-/

namespace CrossRef

open Storage

/-- Reads source texts to trees. -/
abbrev Reader := String → Except Fault Element

namespace Reader

/-- The reader that knows some texts; every other text is refused. -/
def ofTable (table : List (String × Except Fault Element)) : Reader := fun text =>
  (table.lookup text).getD (.error (.badSource "invalid syntax" "<string>" (some 1)))

end Reader

/-- A fault with the line that it was noticed on and the file that it belongs to, as far as known. -/
structure Failure where
  fault : Fault
  line : Option Int := none
  file : Option String := none
  deriving Repr

namespace Failure

/-- The failure of reading a source text. -/
def ofReading (fault : Fault) : Failure :=
  match fault with
  | .badSource _ file line => { fault := fault, line := line, file := some file }
  | _ => { fault := fault }

/-- The same failure as that of a file, if it condemns the source. -/
def inFile (failure : Failure) (file : String) : Failure :=
  if failure.fault.condemnsSource then
    match failure.fault with
    | .badSource sentence _ line => { failure with fault := .badSource sentence file line, file := some file }
    | _ => { failure with file := some file }
  else failure

end Failure

/-- What indexing has come to. -/
structure Indexing where
  /-- The blocks of the index. -/
  blocks : List String := []
  /-- The names of the indexed files. -/
  files : List String := []
  /-- The number of blocks counted so far. -/
  count : Int := 0
  /-- What was printed. -/
  printed : String := ""
  /-- The texts handed to the reader, in order. -/
  sources : List String := []
  failure : Option Failure := none
  deriving Repr

namespace Indexing

/-- The mark of a file in an index, in front of its blocks. -/
def fileMark (name : String) : String :=
  "\n" ++ Mark.file.render ++ name ++ "\n\n"

/-- A source text with simple line ends and one at its end. -/
def prepare (source : String) : String :=
  let chars := Text.joinNewlinePairs source.toList
  String.ofList (if chars.getLast? = some '\n' then chars else chars ++ ['\n'])

mutual

/-- A tree with its lists turned into nodes. -/
def toNodes : Element → Element
  | .node elements | .list elements => .node (allToNodes elements)
  | element => element

/-- Some trees with their lists turned into nodes. -/
def allToNodes : List Element → List Element
  | [] => []
  | element :: rest => toNodes element :: allToNodes rest

end

/-- Hands a text to the reader. -/
def hand (indexing : Indexing) (text : String) : Indexing :=
  { indexing with sources := indexing.sources ++ [text] }

/-- Prints a text. -/
def print (indexing : Indexing) (text : String) : Indexing :=
  { indexing with printed := indexing.printed ++ text }

def fail (indexing : Indexing) (failure : Failure) : Indexing :=
  { indexing with failure := some failure }

/-- Indexes a source text, and dumps its tree if asked to; an empty text has no tree, and a source that
fails gives no blocks. -/
def addSource (settings : Settings) (reader : Reader) (dump : Bool) (indexing : Indexing)
    (source : String) : Indexing :=
  if source.isEmpty then indexing
  else
    let text := prepare source
    let handed := indexing.hand text
    match reader text with
    | .error fault => handed.fail (.ofReading fault)
    | .ok tree =>
      match if dump then Dump.ofLists settings.grammar tree.toLists else .ok "" with
      | .error fault => handed.fail { fault := fault }
      | .ok shown =>
        let dumped := handed.print shown
        let walk := Walk.ofTree settings (toNodes tree)
        match walk.fault with
        | some fault => dumped.fail { fault := fault, line := some walk.line }
        | none =>
          { dumped with
            blocks := dumped.blocks ++ walk.state.rendered
            count := dumped.count + walk.state.rendered.length }

/-- Indexes a file.  One that cannot be opened is reported and contributes nothing. -/
def addFile (settings : Settings) (reader : Reader) (disk : Disk) (dump : Bool) (indexing : Indexing)
    (path : String) : Indexing :=
  let fullPath := join disk.base path
  match disk.read fullPath with
  | .error fault => indexing.print ("pycscope.py: " ++ fault.message ++ "\n")
  | .ok source =>
    let marked :=
      { indexing with
        blocks := indexing.blocks ++ [fileMark path]
        files := indexing.files ++ [path]
        count := indexing.count + 1 }
    let indexed := marked.addSource settings reader dump source
    match indexed.failure with
    | none => indexed
    | some failure => { indexed with count := indexing.count, failure := some (failure.inFile fullPath) }

/-- The row that reports a condemned source. -/
def report (file : String) (line : Option Int) (fault : Fault) : String :=
  "pycscope.py: " ++ file ++ ": Line " ++ (line.map toString).getD "None" ++ ": " ++ fault.message ++ "\n"

/-- Settles the failure of one file: a condemned source is reported, anything else goes on failing. -/
def settle (indexing : Indexing) : Indexing :=
  match indexing.failure with
  | none => indexing
  | some failure =>
    if failure.fault.condemnsSource then
      match failure.fault.family, failure.line with
      | .expectation, none => indexing.fail { fault := .noAttribute "AssertionError" "lineno" }
      | _, line =>
        { indexing.print (report (failure.file.getD "") line failure.fault) with failure := none }
    else indexing

/-- Indexes files one after the other, until one fails otherwise than by a condemned source. -/
def addFiles (settings : Settings) (reader : Reader) (disk : Disk) (dump : Bool) (indexing : Indexing) :
    List String → Indexing
  | [] => indexing
  | path :: rest =>
    let next := (indexing.addFile settings reader disk dump path).settle
    if next.failure.isSome then next else next.addFiles settings reader disk dump rest

end Indexing

end CrossRef
