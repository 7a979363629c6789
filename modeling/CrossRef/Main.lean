import CrossRef.Command
import CrossRef.Element.Reading

/-!
# The program

The command, run on the files below the current directory.  The tree of a source stands in a file next
to it, whose name has the ending `.cst` added; a source without such a file is refused.
-/

namespace CrossRef

open Storage

/-- What is found below a directory: its entries, and the trees of the sources among them. -/
structure Findings where
  entries : List Entry := []
  table : List (String × Except Fault Element) := []

namespace Findings

/-- Adds a source text with what is written in its tree file. -/
def addTree (findings : Findings) (text written : String) : Findings :=
  match Element.ofLiteral? written with
  | some tree => { findings with table := (Indexing.prepare text, .ok tree) :: findings.table }
  | none => findings

end Findings

/-- Collects what a directory holds. -/
partial def explore (listing : Array IO.FS.DirEntry) : IO Findings := do
  let mut findings : Findings := {}
  for found in listing do
    let name := found.fileName
    if ← found.path.isDir then
      let inner ← explore (← found.path.readDir)
      findings :=
        { entries := findings.entries ++ [.directory name inner.entries]
          table := findings.table ++ inner.table }
    else
      try
        let text ← IO.FS.readFile found.path
        findings := { findings with entries := findings.entries ++ [.file name text] }
        let treePath := found.path.addExtension "cst"
        if ← treePath.pathExists then
          findings := findings.addTree text (← IO.FS.readFile treePath)
      catch _ =>
        findings := { findings with entries := findings.entries ++ [.sealed name .denied] }
  return findings

end CrossRef

open CrossRef in
/-- Runs the command in the current directory. -/
def main (arguments : List String) : IO UInt32 := do
  let here ← IO.currentDir
  let findings ← explore (← here.readDir)
  let workspace : Workspace :=
    { disk := .ofEntries here.toString findings.entries, reader := .ofTable findings.table }
  let run := Command.run workspace arguments
  IO.print run.printed
  for (path, text) in run.written do
    IO.FS.writeFile path text
  match run.ending with
  | .exit code => return code.toUInt32
  | .failed failure =>
    IO.eprintln failure.fault.message
    return 1
