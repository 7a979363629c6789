import CrossRef.Discovery
import CrossRef.IndexFile
import CrossRef.Indexing
import CrossRef.Options

/-!
# The command

The command indexes the sources that its arguments stand for and writes the index file.  Options take
effect one after the other, so what stands in front of an option that ends the run has taken effect.
-/

namespace CrossRef

open Storage

/-- What a command works with: the files, the reader of sources and the settings, which last from one
run to the next. -/
structure Workspace where
  disk : Disk
  reader : Reader
  settings : Settings := {}

namespace Command

/-- The rows of what the command says when it is called wrongly. -/
def usageRows : List String :=
  ["Usage: pycscope.py [-D] [-R] [-S] [-V] [-f reffile] [-i srclistfile] [files ...]",
   "",
   "-D              Dump the (C)oncrete (S)yntax (T)ree generated by the parser for each file",
   "-R              Recurse directories for files",
   "-S              Interpret simple strings as symbols",
   "-V              Print version and exit",
   "-f reffile      Use 'reffile' as cross-ref file name instead of 'cscope.out'",
   "-i srclistfile  Use the contents of 'srclistfile' as the list of source files to scan"]

/-- What the command says when it is called wrongly. -/
def usage : String :=
  String.join (usageRows.map (· ++ "\n"))

def versionText : String := "pycscope.py: Version 1.2.1\n"

/-- How a run ends. -/
inductive Ending where
  | exit (code : Nat)
  | failed (failure : Failure)
  deriving Repr

/-- What a run of the command comes to. -/
structure Run where
  workspace : Workspace
  ending : Ending
  printed : String := ""
  /-- The texts handed to the reader, in order. -/
  sources : List String := []
  /-- The files written, each with its path and its text. -/
  written : List (String × String) := []

/-- The request that the options add up to. -/
structure Request where
  dump : Bool := false
  recurse : Bool := false
  output : String := "cscope.out"
  arguments : List String
  deriving Repr

/-- The rows of a file of sources, without the blanks at their ends.  All versions share this reading: a
row ends at any sort of line end, every blank character counts, and the function that cuts blanks off is
taken to be at hand in version 3 too, whose library has it under another name. -/
def sourceRows (text : String) : List String :=
  (Text.fileRows text.toList).map fun row => Text.trimRight (String.ofList row)

/-- Lets the options take effect one after the other: the settings they leave and the request they add
up to, or how they end the run.  No option depends on the version, not even the one that reads a file of
sources. -/
def choose (workspace : Workspace) (request : Request) :
    List Choice → Workspace × Except (Ending × String) Request
  | [] => (workspace, .ok request)
  | choice :: rest =>
    match choice with
    | .dump => choose workspace { request with dump := true } rest
    | .recurse => choose workspace { request with recurse := true } rest
    | .stringSymbols =>
      choose { workspace with settings := { workspace.settings with stringSymbols := true } } request rest
    | .version => (workspace, .error (.exit 0, versionText))
    | .output path => choose workspace { request with output := path } rest
    | .sources path =>
      match workspace.disk.read path with
      | .error fault => (workspace, .error (.failed { fault := fault }, ""))
      | .ok text =>
        choose workspace { request with arguments := request.arguments ++ sourceRows text } rest

/-- The files that a request asks for: those in the base directory if it has no arguments. -/
def requestedFiles (disk : Disk) (request : Request) : List String :=
  Discovery.ofArguments disk request.recurse
    (if request.arguments.isEmpty then ["."] else request.arguments)

/-- The file mark behind the last block. -/
def closingMark : String := "\n" ++ Mark.file.render

/-- Indexes what a request asks for and writes the index file. -/
def perform (workspace : Workspace) (request : Request) : Run :=
  let disk := workspace.disk
  let indexing := ({} : Indexing).addFiles workspace.settings workspace.reader disk request.dump
    (requestedFiles disk request)
  let run := fun workspace ending written =>
    { workspace := workspace, ending := ending, printed := indexing.printed,
      sources := indexing.sources, written := written : Run }
  match indexing.failure with
  | some failure => run workspace (.failed failure) []
  | none =>
    let path := join disk.base request.output
    let text := IndexFile.render disk.base (indexing.blocks ++ [closingMark]) indexing.files
    match disk.write path text with
    | .error fault => run workspace (.failed { fault := fault }) []
    | .ok changed =>
      run { workspace with disk := changed } (.exit 0) [(pathOf (namesOf (join disk.base path)), text)]

/-- Runs the command with the arguments behind its name. -/
def run (workspace : Workspace) (arguments : List String) : Run :=
  match Options.parse arguments with
  | none => { workspace := workspace, ending := .exit 2, printed := usage }
  | some (choices, rest) =>
    match choose workspace { arguments := rest } choices with
    | (workspace, .error (ending, printed)) => { workspace := workspace, ending := ending, printed := printed }
    | (workspace, .ok request) => perform workspace request

end Command

end CrossRef
