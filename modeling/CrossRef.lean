import CrossRef.Main
import CrossRef.Outline
import CrossRef.Sample.Exercise
import CrossRef.Walk.Preorder
import CrossRef.Proofs.Passage
import CrossRef.Proofs.Preparation
import CrossRef.Proofs.Terminals
import CrossRef.Proofs.LineForm
import CrossRef.Proofs.Symbols
import CrossRef.Proofs.Contributions
import CrossRef.Proofs.Legibility
import CrossRef.Proofs.Decoding
import CrossRef.Proofs.Unambiguity
import CrossRef.Proofs.Navigation
import CrossRef.Proofs.Bookkeeping
import CrossRef.Proofs.Writing
import CrossRef.Proofs.Expectations
import CrossRef.Proofs.Assignments
import CrossRef.Proofs.Declarations
import CrossRef.Proofs.Imports
import CrossRef.Proofs.Primaries
import CrossRef.Proofs.DottedNames
import CrossRef.Proofs.CleanWalk
import CrossRef.Proofs.ImportStatements
import CrossRef.Proofs.Places
import CrossRef.Proofs.Lookahead
import CrossRef.Proofs.PendingNotes
import CrossRef.Proofs.Scopes
import CrossRef.Proofs.FunctionLevels
import CrossRef.Proofs.FunctionMarks
import CrossRef.Proofs.OneLineFunctions
import CrossRef.Proofs.LineNumbers
import CrossRef.Proofs.Recursion
import CrossRef.Proofs.Counterparts
import CrossRef.Proofs.StringSymbols
import CrossRef.Proofs.Versions
import CrossRef.Proofs.Targets
import CrossRef.Proofs.AssignedNames
import CrossRef.Proofs.StringLines
import CrossRef.Proofs.MarkPlaces
import CrossRef.Proofs.MarkOrigins
import CrossRef.Proofs.Unpacking
import CrossRef.Proofs.WrittenMarks
import CrossRef.Proofs.ImportCounts
import CrossRef.Proofs.ImportedModules
import CrossRef.Proofs.ModuleSymbols
import CrossRef.Proofs.InclusionMarks
import CrossRef.Proofs.LineBuilding
import CrossRef.Proofs.TrailerPosition
import CrossRef.Proofs.CallMarks
import CrossRef.Proofs.PathNames
import CrossRef.Proofs.FoundFiles
import CrossRef.Proofs.SourceLists
import CrossRef.Proofs.NamedKinds
import CrossRef.Proofs.Outlines
import CrossRef.Proofs.ClosedConstructs
import CrossRef.Proofs.Levels
