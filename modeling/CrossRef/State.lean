import CrossRef.Grammar
import CrossRef.Line

/-!
# Walk states

What a walk keeps while it goes through a tree: the lines it has finished, the line it is writing, the
marks noted for terminals still to come, and a few facts about where it stands.
-/

namespace CrossRef

/-- The state of a walk. -/
structure State where
  /-- The lines written so far, in order; `none` stands for a line asked for when none was open. -/
  blocks : List (Option Line) := []
  /-- The line being written, until the end of the source. -/
  line : Option Line := some { number := 1 }
  /-- The labels noted for terminals that have not been reached. -/
  marks : List (Path × Label) := []
  /-- The expressions still to come that are assigned to. -/
  awaited : List Path := []
  indentation : Int := 0
  /-- The indentation of the outermost function around this place, −1 outside any function. -/
  functionLevel : Int := -1
  /-- Twice the number of modules that the import statement has left, once one has been counted. -/
  importHalves : Option Nat := none
  /-- Whether dotted names are modules of an import statement. -/
  importing : Bool := false
  /-- Whether the next primary is assigned to. -/
  assigning : Bool := false
  deriving Repr

/-- A state together with the fault that stopped the way to it. -/
structure Attempt where
  state : State
  fault : Option Fault := none
  deriving Repr

namespace State

/-- The label noted for a terminal. -/
def labelAt? (state : State) (path : Path) : Option Label :=
  state.marks.lookup path

/-- Notes a label for a terminal, which must not have one and must be of a kind that can hold one. -/
def setMark (grammar : Grammar) (state : State) (path : Path) (terminal : Element) (label : Label) :
    Attempt :=
  if (state.labelAt? path).isSome then ⟨state, some .misshapen⟩
  else
    match terminal.kind with
    | .error fault => ⟨state, some fault⟩
    | .ok kind =>
      if kind.isNumberIn grammar.markable then
        ⟨{ state with marks := state.marks ++ [(path, label)] }, none⟩
      else ⟨state, some (.unmarkable grammar.markableNames terminal)⟩

/-- Forgets the label noted for a terminal. -/
def dropMark (state : State) (path : Path) : State :=
  { state with marks := state.marks.filter (·.1 ≠ path) }

/-- Takes the label noted for a terminal, which must have one. -/
def takeMark (state : State) (path : Path) : Except Fault (Label × State) :=
  match state.labelAt? path with
  | some label => .ok (label, state.dropMark path)
  | none => .error .misshapen

/-- Notes that an expression is assigned to. -/
def await (state : State) (path : Path) : State :=
  if state.awaited.contains path then state
  else { state with awaited := state.awaited ++ [path] }

/-- Puts the current line among the finished ones if it holds a symbol. -/
def flush (state : State) : State :=
  match state.line with
  | none => { state with blocks := state.blocks ++ [none] }
  | some line => if line.hasSymbol then { state with blocks := state.blocks ++ [some line] } else state

/-- Finishes the current line and starts the one with the given number, or none if it is absent. -/
def commit (state : State) (next : Element) : Attempt :=
  let flushed := state.flush
  if next.isPresent then
    match Line.start next with
    | .ok line => ⟨{ flushed with line := some line }, none⟩
    | .error fault => ⟨flushed, some fault⟩
  else ⟨{ flushed with line := none }, none⟩

/-- Adds an item to the current line. -/
def addItem (state : State) (item : Item) : Attempt :=
  match state.line with
  | none => ⟨state, some (.noSum "+=" "NoneType" item.sort)⟩
  | some line =>
    match line.add item with
    | .ok longer => ⟨{ state with line := some longer }, none⟩
    | .error fault => ⟨state, some fault⟩

/-- The blocks of an index that the finished lines give. -/
def rendered (state : State) : List String :=
  state.blocks.map fun
    | some line => line.render
    | none => "None"

end State

end CrossRef
