import CrossRef.State
import CrossRef.Verdict

/-!
# Steps

What a node makes a walk do is a list of steps, worked out from the node before any of them is taken.
Steps are taken in order until one fails; what the earlier ones did stays done.
-/

namespace CrossRef

/-- One change of a walk's state, or one demand on the tree. -/
inductive Step where
  | fail (fault : Fault)
  /-- Goes on only if the tree is as it should be. -/
  | demand (verdict : Verdict)
  /-- Notes a mark for a terminal still to come. -/
  | mark (path : Path) (terminal : Element) (mark : Mark)
  /-- Forgets the mark of the terminal at hand. -/
  | unmark (path : Path)
  /-- Notes that an expression still to come is assigned to. -/
  | await (path : Path)
  /-- Enters an expression that is assigned to. -/
  | arrive (path : Path)
  /-- Leaves the search for what is assigned to. -/
  | settle
  /-- Enters an outermost function. -/
  | openFunction
  | beginImport
  /-- Notes twice the number of modules that an import statement has. -/
  | countImports (halves : Nat)
  /-- Leaves one module of an import statement behind. -/
  | finishImport
  | indent
  /-- Goes back one level of indentation, which may end a function. -/
  | dedent
  /-- Goes on to another line of the source. -/
  | turn (number : Int)
  | add (item : Item)
  /-- Reaches the end of the source. -/
  | finish
  deriving Repr

namespace State

/-- Enters an expression that is assigned to; a second one cannot be entered before the first has led
to a primary. -/
def arrive (state : State) (path : Path) : Attempt :=
  let state := { state with awaited := state.awaited.filter (· ≠ path) }
  if state.assigning then ⟨state, some .misshapen⟩ else ⟨{ state with assigning := true }, none⟩

/-- Leaves one module of an import statement behind, and the statement with the last one. -/
def finishImport (state : State) : State :=
  let left := state.importHalves.getD 0 - 2
  { state with importHalves := some left, importing := state.importing && left ≠ 0 }

/-- Goes back one level of indentation.  The outermost function ends where its own level is reached. -/
def dedent (state : State) : Attempt :=
  let state := { state with indentation := state.indentation - 1 }
  if state.indentation = state.functionLevel then
    { state with functionLevel := -1 }.addItem (.symbol (some .functionEnd) "")
  else ⟨state, none⟩

/-- Takes one step. -/
@[simp]
def take (grammar : Grammar) (state : State) : Step → Attempt
  | .fail fault => ⟨state, some fault⟩
  | .demand (.ok true) => ⟨state, none⟩
  | .demand (.ok false) => ⟨state, some .misshapen⟩
  | .demand (.error fault) => ⟨state, some fault⟩
  | .mark path terminal mark => state.setMark grammar path terminal (.known mark)
  | .unmark path => ⟨state.dropMark path, none⟩
  | .await path => ⟨state.await path, none⟩
  | .arrive path => state.arrive path
  | .settle => ⟨{ state with assigning := false }, none⟩
  | .openFunction => ⟨{ state with functionLevel := state.indentation }, none⟩
  | .beginImport => ⟨{ state with importing := true }, none⟩
  | .countImports halves => ⟨{ state with importHalves := some halves }, none⟩
  | .finishImport => ⟨state.finishImport, none⟩
  | .indent => ⟨{ state with indentation := state.indentation + 1 }, none⟩
  | .dedent => state.dedent
  | .turn number => state.commit (.int number)
  | .add item => state.addItem item
  | .finish => state.commit .null

/-- Takes steps in order until one fails. -/
def takeAll (grammar : Grammar) (state : State) : List Step → Attempt
  | [] => ⟨state, none⟩
  | step :: rest =>
    match state.take grammar step with
    | ⟨next, none⟩ => takeAll grammar next rest
    | ⟨next, some fault⟩ => ⟨next, some fault⟩

end State

/-- A list of steps to be taken in order. -/
abbrev Plan := List Step

namespace Plan

/-- Goes on in one of two ways. -/
def branch (verdict : Verdict) (yes no : Plan) : Plan :=
  match verdict with
  | .ok true => yes
  | .ok false => no
  | .error fault => [.fail fault]

/-- Marks the terminal that a route from a node leads to. -/
def markAt (path : Path) (node : Element) (route : List Int) (mark : Mark) : Plan :=
  match Element.locate path node route with
  | .ok (place, terminal) => [.mark place terminal mark]
  | .error fault => [.fail fault]

/-- Marks all terminals of a node. -/
def markAll (path : Path) (node : Element) (mark : Mark) : Plan :=
  (node.numbered 1).map fun (position, terminal) => .mark (path ++ [position]) terminal mark

end Plan

end CrossRef
