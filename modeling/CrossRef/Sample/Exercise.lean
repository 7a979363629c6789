import CrossRef.Command
import CrossRef.Sample.Module
import CrossRef.Workbench

/-!
# Exercises

Runs of the whole library on sample modules, with what each of them is expected to report.
-/

namespace CrossRef.Sample

open Storage

def settings (stringSymbols : Bool) : Settings :=
  { grammar := grammar, stringSymbols := stringSymbols }

/-- The blocks of a sample module. -/
def blocks (stringSymbols : Bool) (count : Nat) : List String :=
  (Walk.ofTree (settings stringSymbols) (program count)).state.rendered

/-- Walks a module with and without symbols in strings. -/
def walkExercise (count : Nat) : List String × List String :=
  (blocks true count, blocks false count)

/-- Indexes two sources one after the other: a module and a module of six statements. -/
def sourceExercise (count : Nat) : List String :=
  let reader := Reader.ofTable [("first\n", .ok (program count)), ("second\n", .ok (program 6))]
  ((({} : Indexing).addSource (settings false) reader false "first\n").addSource
    (settings false) reader false "second\n").blocks

/-- Names the kinds of a module. -/
def namingExercise (count : Nat) : Element :=
  ((program count).toLists.rename grammar).tree

/-- What an exercise with objects finds. -/
inductive Finding where
  | text (text : String)
  | truth (value : Bool)
  | items (items : List Item)
  deriving DecidableEq, Repr

/-- The marks that the exercise with objects goes through. -/
def markCycle : List (Option Mark) :=
  [none, some .call, some .assignment, some .classDefinition, some .globalName, some .inclusion,
   some .definition, some .file, some .localName]

/-- The end of a function. -/
def functionEnd : Item := .symbol (some .functionEnd) ""

/-- The items of the line in turn. -/
def lineItems (index : Nat) : List Item :=
  if index % 2 = 0 then [.symbol none "x", functionEnd, functionEnd, .plain "+"]
  else [.plain "if", .symbol none "x", .plain "==", .symbol none "y", functionEnd]

/-- A line with some items added; an item that cannot be added is left out. -/
def lineWith (number : Nat) (items : List Item) : Line :=
  items.foldl (fun line item => (line.add item).toOption.getD line) { number := number }

/-- What two items joined are shown as. -/
def joined (left right : Item) : Item :=
  (left.merge right).toOption.getD left

/-- What is found about the mark, the symbol, the text and the line in turn. -/
def objectFindings (index : Nat) : List Finding :=
  let mark := (markCycle[index % 9]?).getD none
  let sign := (mark.map Mark.sign).getD ""
  let name := "name" ++ toString index
  let symbol := joined (.symbol mark name) (.symbol mark "more")
  let same := decide (symbol = .symbol mark (name ++ "more"))
  let line := lineWith (index + 1) (lineItems index)
  [.text (Mark.renderOptional mark), .text (Mark.display mark), .text sign, .truth same, .truth !same,
   .text symbol.display, .text (name ++ "more"), .text sign, .truth same,
   .text (joined (.plain "tok") (.plain "tok2")).display,
   .text line.display, .items line.items, .truth line.hasSymbol,
   .text (lineWith (index + 1) []).render]

/-- What is found about some objects, and what they print when asked for what they lack. -/
def objectExercise (count : Nat) : List Finding × String :=
  ((List.range count).flatMap objectFindings,
   String.join (List.replicate count (Workbench.missingAttribute "missing")))

/-- The name of the file in turn. -/
def fileName (index : Nat) : String :=
  let digits := Nat.toDigits 10 index
  "m" ++ String.ofList (List.replicate (3 - digits.length) '0' ++ digits) ++ ".py"

/-- The text of the file in turn. -/
def fileText (index : Nat) : String := "module " ++ toString index ++ "\n"

def badText : String := "bad\n"

/-- Whether the file in turn lies in a directory of its own. -/
def isInner (index : Nat) : Bool := index % 3 = 0

/-- Some sample files: modules, a third of them in an inner directory, an empty file and a bad one. -/
def entries (count : Nat) : List Entry :=
  let files := fun inner => ((List.range count).filter fun index => isInner index = inner).map
    fun index => Entry.file (fileName index) (fileText index)
  files false ++ [.directory "pkg" (files true), .file "empty.py" "", .file "bad.py" badText]

/-- Reads the sample files; their modules have from twelve to sixteen statements. -/
def reader (count : Nat) : Reader :=
  Reader.ofTable
    ((List.range count).map fun index => (fileText index, .ok (program (12 + index % 5))))

/-- Indexes sample files and writes an index: its length, the number of its blocks and the names of the
files in order. -/
def filesExercise (count : Nat) : Nat × Nat × List String :=
  let disk := Disk.ofEntries "/base" (entries count)
  let indexing := ({} : Indexing).addFiles (settings false) (reader count) disk false
    (Discovery.ofArguments disk true ["."])
  let blocks := indexing.blocks ++ [Command.closingMark]
  ((IndexFile.render disk.base blocks indexing.files).length, blocks.length,
   indexing.files.mergeSort fun left right => decide (left ≤ right))

/-- The directory of the command's sample files. -/
def sampleDirectory : String := "/tmp/tmp01234567"

/-- The paths of the sample files. -/
def paths (count : Nat) : List String :=
  (List.range count).map (fun index =>
    join sampleDirectory (if isInner index then join "pkg" (fileName index) else fileName index)) ++
    [join sampleDirectory "empty.py", join sampleDirectory "bad.py"]

/-- Runs the command on sample files from the root directory: a list of the first four files and the
directory of all of them.  Gives the exit code and the length of the index file. -/
def commandExercise (count : Nat) : Nat × Nat :=
  let list := String.join (((paths count).take 4).map (· ++ "\n"))
  let root := (Disk.ofEntries sampleDirectory (.file "sources" list :: entries count)).root
  let workspace : Workspace :=
    { disk := { root := root, base := "/" }, reader := reader count, settings := settings false }
  let run := Command.run workspace
    ["-R", "-f", join sampleDirectory "index", "-i", join sampleDirectory "sources", sampleDirectory]
  let code := match run.ending with
    | .exit code => code
    | .failed _ => 1
  (code, run.written.foldl (fun total (_, text) => total + text.length) 0)

end CrossRef.Sample
