import CrossRef.Walk

/-!
# The order of a walk

The nodes of a tree have an order of reading: a node comes before its children, and these come from left
to right.  A walk visits the nodes in this order, up to the first fault, so its agenda can be left out of
every argument about walks.
-/

namespace CrossRef

namespace Element

mutual

/-- A tree and the nodes below it in the order of reading, each with its path. -/
def preorder (path : Path) : Element → List (Path × Element)
  | .node (kind :: rest) => (path, .node (kind :: rest)) :: preorderFrom path 1 rest
  | .list (kind :: rest) => (path, .list (kind :: rest)) :: preorderFrom path 1 rest
  | element => [(path, element)]

/-- The nodes in some trees in the order of reading; `position` is the place of the first tree. -/
def preorderFrom (path : Path) (position : Nat) : List Element → List (Path × Element)
  | [] => []
  | .node elements :: rest =>
    preorder (path ++ [position]) (.node elements) ++ preorderFrom path (position + 1) rest
  | _ :: rest => preorderFrom path (position + 1) rest

end

end Element

namespace Agenda

/-- The nodes that an agenda leads to, in the order of reading. -/
def preorder (agenda : Agenda) : List (Path × Element) :=
  agenda.flatMap fun entry => entry.2.preorder entry.1

theorem preorder_nodesFrom (path : Path) (position : Nat) (elements : List Element) :
    preorder (Element.nodesFrom path position elements) =
      Element.preorderFrom path position elements := by
  induction elements generalizing position with
  | nil => simp [Element.nodesFrom, Element.preorderFrom, preorder]
  | cons element rest ih =>
    have tail := ih (position + 1)
    cases element <;> simp_all [Element.nodesFrom, Element.preorderFrom, preorder]

theorem preorder_children (path : Path) (node : Element) :
    node.preorder path = (path, node) :: preorder (node.children path) := by
  rw [Element.children, preorder_nodesFrom]
  cases node with
  | node elements | list elements =>
    cases elements <;> simp [Element.preorder, Element.preorderFrom]
  | _ => simp [Element.preorder, Element.preorderFrom, Element.elements]

/-- The first node of an agenda comes first, and its children come before the rest. -/
theorem preorder_cons (path : Path) (node : Element) (pending : Agenda) :
    preorder ((path, node) :: pending) = (path, node) :: preorder (node.children path ++ pending) := by
  have first := preorder_children path node
  unfold preorder at first ⊢
  rw [List.flatMap_cons, first, List.cons_append, List.flatMap_append]

end Agenda

namespace Walk

/-- Visits nodes one after the other, up to the first fault. -/
def visitEach (settings : Settings) (walk : Walk) : List (Path × Element) → Walk
  | [] => walk
  | (path, node) :: rest =>
    let next := walk.visit settings path node
    if next.fault.isSome then next else visitEach settings next rest

/-- Working off an agenda visits the nodes it leads to in the order of reading. -/
theorem run_eq_visitEach (settings : Settings) (walk : Walk) (agenda : Agenda) :
    run settings walk agenda = visitEach settings walk agenda.preorder := by
  fun_induction run settings walk agenda with
  | case1 walk => rfl
  | case2 walk path node pending next faulty =>
    simp only [Agenda.preorder_cons, visitEach]
    exact (if_pos faulty).symm
  | case3 walk path node pending next sound ih =>
    simp only [Agenda.preorder_cons, visitEach]
    rw [ih, Agenda.pushAll_eq]
    exact (if_neg sound).symm

/-- A walk of a tree visits its nodes in the order of reading. -/
theorem below_eq_visitEach (settings : Settings) (state : State) (path : Path) (node : Element) :
    below settings state path node = visitEach settings { state := state } (node.preorder path) := by
  rw [below, run_eq_visitEach]
  simp [Agenda.preorder]

theorem ofTree_eq_visitEach (settings : Settings) (tree : Element) :
    ofTree settings tree = visitEach settings {} (tree.preorder []) :=
  below_eq_visitEach settings {} [] tree

end Walk

end CrossRef
