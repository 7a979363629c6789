import CrossRef.Plan.Construct
import CrossRef.Plan.Terminal

/-!
# Walks

A walk visits the nodes of a tree from an agenda of nodes still to come: it takes the first one, does
what that node asks for, and puts the node's children in front of the rest, the last of them first.  The
first fault ends the walk.
-/

namespace CrossRef

namespace State

/-- Does what a construct asks for. -/
def visitConstruct (settings : Settings) (state : State) (path : Path) (node : Element) : Attempt :=
  state.takeAll settings.grammar (Plan.construct settings.grammar state path node)

/-- Does what a terminal on the given line asks for. -/
def visitTerminal (settings : Settings) (state : State) (path : Path) (node : Element)
    (number : Int) : Attempt :=
  state.takeAll settings.grammar (Plan.terminal settings state path node number)

end State

namespace Element

/-- The line number of a terminal. -/
def lineNumber (node : Element) : Except Fault Int :=
  match node.entry 2 with
  | .ok number => number.toInteger
  | .error fault => .error fault

/-- Whether a node is a construct and not a terminal. -/
def isConstruct (node : Element) : Verdict :=
  match node.kind with
  | .ok kind => kind.atLeast Kind.firstConstruct
  | .error fault => .error fault

mutual

/-- The number of elements in a tree. -/
def weight : Element → Nat
  | .node elements | .list elements => weights elements + 1
  | _ => 1

/-- The number of elements in some trees. -/
def weights : List Element → Nat
  | [] => 0
  | element :: rest => element.weight + weights rest

end

end Element

/-- A node still to be visited, with its path. -/
abbrev Agenda := List (Path × Element)

namespace Agenda

/-- Puts an entry of the sequence at a path in front of an agenda, if it is a node. -/
def push (path : Path) (agenda : Agenda) (entry : Nat × Element) : Agenda :=
  match entry.2 with
  | .node elements => (path ++ [entry.1], .node elements) :: agenda
  | _ => agenda

/-- Puts the entries behind the kind of a sequence in front of an agenda, from the last to the first. -/
def pushAll (path : Path) (node : Element) (agenda : Agenda) : Agenda :=
  (node.numbered 1).reverse.foldl (push path) agenda

theorem foldr_push (path : Path) (position : Nat) (elements : List Element) (agenda : Agenda) :
    ((elements.zipIdx position).map fun (child, place) => (place, child)).foldr
        (fun entry rest => push path rest entry) agenda =
      Element.nodesFrom path position elements ++ agenda := by
  induction elements generalizing position with
  | nil => rfl
  | cons element rest ih =>
    rw [List.zipIdx_cons, List.map_cons, List.foldr_cons, ih]
    cases element <;> rfl

/-- Pushed from the last to the first, the children stand in front of the rest in the order of reading. -/
theorem pushAll_eq (path : Path) (node : Element) (agenda : Agenda) :
    pushAll path node agenda = node.children path ++ agenda := by
  have behind : node.elements.zipIdx.drop 1 = node.elements.tail.zipIdx 1 := by
    cases node.elements <;> rfl
  rw [pushAll, List.foldl_reverse, Element.numbered, behind, foldr_push, Element.children]

/-- The number of elements that an agenda leads to. -/
def weight : Agenda → Nat
  | [] => 0
  | entry :: rest => entry.2.weight + weight rest

theorem weight_append (left right : Agenda) :
    weight (left ++ right) = weight left + weight right := by
  induction left with
  | nil => simp [weight]
  | cons entry rest ih => simp [weight, ih, Nat.add_assoc]

theorem weight_nodesFrom (path : Path) (position : Nat) (elements : List Element) :
    weight (Element.nodesFrom path position elements) ≤ Element.weights elements := by
  induction elements generalizing position with
  | nil => simp [Element.nodesFrom, weight, Element.weights]
  | cons element rest ih =>
    have tail := ih (position + 1)
    cases element <;>
      simp only [Element.nodesFrom, weight, Element.weights] at tail ⊢ <;>
      omega

theorem weights_tail_le (elements : List Element) :
    Element.weights elements.tail ≤ Element.weights elements := by
  cases elements with
  | nil => simp
  | cons element rest => simp [Element.weights]

theorem weight_children_lt (path : Path) (node : Element) :
    weight (node.children path) < node.weight := by
  have bound := weight_nodesFrom path 1 node.elements.tail
  have tail := weights_tail_le node.elements
  unfold Element.children
  cases node <;> simp only [Element.elements, Element.weight, Element.weights] at bound tail ⊢ <;>
    simp_all <;> omega

end Agenda

/-- How far a walk has come. -/
structure Walk where
  state : State := {}
  /-- The line of the last terminal that was done with. -/
  line : Int := 1
  /-- The nodes done with, in order, each with the state it left. -/
  visits : Array (Path × State) := #[]
  fault : Option Fault := none
  deriving Repr

namespace Walk

/-- Records what a visit came to. -/
def record (walk : Walk) (path : Path) (attempt : Attempt) (line : Int) : Walk :=
  match attempt.fault with
  | some fault => { walk with state := attempt.state, fault := some fault }
  | none =>
    { walk with state := attempt.state, line := line, visits := walk.visits.push (path, attempt.state) }

/-- Visits one node. -/
def visit (settings : Settings) (walk : Walk) (path : Path) (node : Element) : Walk :=
  match node.isConstruct with
  | .error fault => { walk with fault := some fault }
  | .ok true => walk.record path (walk.state.visitConstruct settings path node) walk.line
  | .ok false =>
    match node.lineNumber with
    | .error fault => { walk with fault := some fault }
    | .ok number => walk.record path (walk.state.visitTerminal settings path node number) number

/-- Visits the nodes of an agenda and all nodes below them. -/
def run (settings : Settings) (walk : Walk) : Agenda → Walk
  | [] => walk
  | (path, node) :: pending =>
    let next := walk.visit settings path node
    if next.fault.isSome then next else run settings next (Agenda.pushAll path node pending)
termination_by agenda => Agenda.weight agenda
decreasing_by
  have smaller := Agenda.weight_children_lt path node
  rw [Agenda.pushAll_eq, Agenda.weight_append]
  simp only [Agenda.weight]
  omega

/-- Walks the tree below a node from a state. -/
def below (settings : Settings) (state : State) (path : Path) (node : Element) : Walk :=
  run settings { state := state } [(path, node)]

/-- Walks a whole tree. -/
def ofTree (settings : Settings) (tree : Element) : Walk :=
  Walk.below settings {} [] tree

end Walk

end CrossRef
