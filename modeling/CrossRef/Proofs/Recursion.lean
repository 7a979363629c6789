import CrossRef.Proofs.Passage
import CrossRef.Proofs.Places

/-!
# Walks as recursions

A walk works off an agenda, but what it does can be said without one: it visits a node and then, from
left to right, walks the nodes right below it in the same way, and the first fault ends it.  This file
gives that recursion and shows that both come to the same: the same state, the same record, the same
fault and the same line.  The nodes that are visited are those that can be reached from the root by
going from node to node, in the order of their places, up to the one that fails.
-/

namespace CrossRef

namespace Element

/-- The nodes of a tree that one comes to by going from a node to a node among its elements, the kind
left out; lists and everything in them are passed over. -/
inductive Reached (path : Path) (tree : Element) : Path → Element → Prop where
  | root : Reached path tree path tree
  | child {place : Path} {node : Element} {index : Nat} {inner : List Element}
      (reached : Reached path tree place node) (behindKind : 0 < index)
      (found : node.elements[index]? = some (.node inner)) :
      Reached path tree (place ++ [index]) (.node inner)

theorem Reached.trans {path middle place : Path} {tree node target : Element}
    (first : Reached path tree middle node) (second : Reached middle node place target) :
    Reached path tree place target := by
  induction second with
  | root => exact first
  | child reached behindKind found ih => exact .child ih behindKind found

/-- The order of reading names the nodes that can be reached. -/
theorem mem_preorder_iff_reached {path place : Path} {tree node : Element} :
    (place, node) ∈ tree.preorder path ↔ tree.Reached path place node := by
  constructor
  · intro member
    induction path, tree using induction_children with
    | below path tree ih =>
        rcases mem_preorder.mp member with isRoot | ⟨child, isChild, inChild⟩
        · cases isRoot
          exact .root
        · have further := ih child isChild inChild
          rcases mem_children.mp isChild with ⟨index, inner, found, rfl⟩
          exact Reached.trans (.child .root (Nat.succ_pos index) found) further
  · intro reached
    induction reached with
    | root => exact self_mem_preorder path tree
    | @child place node index inner reached behindKind found ih =>
        apply mem_preorder_trans ih
        have isChild : (place ++ [index], .node inner) ∈ node.children place := by
          refine mem_children.mpr ⟨index - 1, inner, ?_, ?_⟩
          · rwa [Nat.sub_add_cancel behindKind]
          · rw [Nat.sub_add_cancel behindKind]
        exact mem_preorder.mpr (Or.inr ⟨_, isChild, self_mem_preorder _ _⟩)

end Element

namespace Agenda

/-- The line of the last terminal among some nodes, or the given one if there is no terminal. -/
def lineBehind (line : Int) (nodes : List (Path × Element)) : Int :=
  (nodes.filterMap fun entry =>
    if entry.2.isTerminal then entry.2.lineNumber.toOption else none).getLast?.getD line

theorem lineBehind_construct {path : Path} {node : Element} (isConstruct : node.isConstruct = .ok true)
    (line : Int) (rest : List (Path × Element)) :
    lineBehind line ((path, node) :: rest) = lineBehind line rest := by
  simp [lineBehind, Element.isTerminal, isConstruct]

theorem lineBehind_terminal {path : Path} {node : Element} {number : Int}
    (isTerminal : node.isConstruct = .ok false) (numbered : node.lineNumber = .ok number) (line : Int)
    (rest : List (Path × Element)) :
    lineBehind line ((path, node) :: rest) = lineBehind number rest := by
  simp [lineBehind, Element.isTerminal, isTerminal, numbered, Except.toOption, List.getLast?_cons]

end Agenda

namespace Walk

mutual

/-- Walks a tree by recursion: visits the node itself and then walks what is right below it. -/
def descend (settings : Settings) (walk : Walk) (path : Path) : Element → Walk
  | .node (kind :: rest) =>
    let next := walk.visit settings path (.node (kind :: rest))
    if next.fault.isSome then next else descendEach settings next path 1 rest
  | .list (kind :: rest) =>
    let next := walk.visit settings path (.list (kind :: rest))
    if next.fault.isSome then next else descendEach settings next path 1 rest
  | element => walk.visit settings path element

/-- Walks the nodes among some elements from left to right, up to the first fault; `position` is the
place of the first element. -/
def descendEach (settings : Settings) (walk : Walk) (path : Path) (position : Nat) :
    List Element → Walk
  | [] => walk
  | .node elements :: rest =>
    let next := descend settings walk (path ++ [position]) (.node elements)
    if next.fault.isSome then next else descendEach settings next path (position + 1) rest
  | _ :: rest => descendEach settings walk path (position + 1) rest

end

variable {settings : Settings}

/-- Visits go on behind the first ones if these have come off. -/
theorem visitEach_append {walk : Walk} (sound : walk.fault = none) (first second : List (Path × Element)) :
    visitEach settings walk (first ++ second) =
      if (visitEach settings walk first).fault.isSome then visitEach settings walk first
      else visitEach settings (visitEach settings walk first) second := by
  induction first generalizing walk with
  | nil => simp [visitEach, sound]
  | cons entry rest ih =>
      rcases entry with ⟨path, node⟩
      simp only [List.cons_append, visitEach]
      by_cases failed : (walk.visit settings path node).fault.isSome
      · simp [failed]
      · simp only [failed, Bool.false_eq_true, if_false]
        exact ih (by simpa using failed)

mutual

/-- The recursion visits the nodes of a tree in the order of reading. -/
theorem descend_eq_visitEach (walk : Walk) (path : Path) (tree : Element) :
    descend settings walk path tree = visitEach settings walk (tree.preorder path) := by
  have goesOn (element : Element) (rest : List Element)
      (others : ∀ next : Walk, next.fault = none →
        descendEach settings next path 1 rest =
          visitEach settings next (Element.preorderFrom path 1 rest)) :
      (if (walk.visit settings path element).fault.isSome then walk.visit settings path element
        else descendEach settings (walk.visit settings path element) path 1 rest) =
      visitEach settings walk ((path, element) :: Element.preorderFrom path 1 rest) := by
    rw [visitEach]
    split
    · rfl
    next sound => exact others _ (by simpa using sound)
  match tree with
  | .node (kind :: rest) =>
      rw [descend, Element.preorder]
      exact goesOn _ rest fun next sound => descendEach_eq_visitEach sound path 1 rest
  | .list (kind :: rest) =>
      rw [descend, Element.preorder]
      exact goesOn _ rest fun next sound => descendEach_eq_visitEach sound path 1 rest
  | .node [] | .list [] | .null | .bool value | .int value | .float value | .text value =>
      simp [descend, Element.preorder, visitEach]

theorem descendEach_eq_visitEach {walk : Walk} (sound : walk.fault = none) (path : Path)
    (position : Nat) (elements : List Element) :
    descendEach settings walk path position elements =
      visitEach settings walk (Element.preorderFrom path position elements) := by
  match elements with
  | [] => rfl
  | .node inner :: rest =>
      rw [descendEach, Element.preorderFrom, visitEach_append sound,
        descend_eq_visitEach walk (path ++ [position]) (.node inner)]
      split
      · rfl
      next unfailed => exact descendEach_eq_visitEach (by simpa using unfailed) path (position + 1) rest
  | .null :: rest | .bool value :: rest | .int value :: rest | .float value :: rest
  | .text value :: rest | .list inner :: rest =>
      exact descendEach_eq_visitEach sound path (position + 1) rest

end

/-! ## How far the visits come -/

/-- A visit that comes off goes to the line of a terminal. -/
theorem lineBehind_visit {walk : Walk} {path : Path} {node : Element}
    (sound : (walk.visit settings path node).fault = none) (rest : List (Path × Element)) :
    Agenda.lineBehind walk.line ((path, node) :: rest) =
      Agenda.lineBehind (walk.visit settings path node).line rest := by
  cases sort : node.isConstruct with
  | error fault => simp [visit, sort] at sound
  | ok isConstruct =>
      cases isConstruct with
      | true =>
          rw [Agenda.lineBehind_construct sort]
          simp only [visit, sort, record] at sound ⊢
          split <;> rfl
      | false =>
          cases numbered : node.lineNumber with
          | error fault => simp [visit, sort, numbered] at sound
          | ok number =>
              rw [Agenda.lineBehind_terminal sort numbered]
              simp only [visit, sort, numbered, record] at sound ⊢
              split at sound
              next => simp at sound
              next => simp

/-- Visits that all come off are recorded in order, and the line is that of the last terminal. -/
theorem visitEach_recorded {nodes : List (Path × Element)} {walk : Walk}
    (sound : (visitEach settings walk nodes).fault = none) :
    (visitEach settings walk nodes).visits.toList.map Prod.fst =
        walk.visits.toList.map Prod.fst ++ nodes.map Prod.fst ∧
      (visitEach settings walk nodes).line = Agenda.lineBehind walk.line nodes := by
  induction nodes generalizing walk with
  | nil => simp [visitEach, Agenda.lineBehind]
  | cons entry rest ih =>
      rcases entry with ⟨path, node⟩
      rcases visitEach_cons sound with ⟨firstSound, goesOn⟩
      rw [goesOn] at sound ⊢
      rcases ih sound with ⟨recorded, line⟩
      constructor
      · rw [recorded, (visit_passes firstSound).2]
        simp
      · rw [line, lineBehind_visit firstSound]

/-- A visit that fails is not recorded and leaves the line. -/
theorem visit_of_fault (settings : Settings) {walk : Walk} (sound : walk.fault = none) {path : Path}
    {node : Element} (failed : (walk.visit settings path node).fault.isSome) :
    (walk.visit settings path node).visits = walk.visits ∧
      (walk.visit settings path node).line = walk.line := by
  have unrecorded (attempt : Attempt) (line : Int)
      (failed : (walk.record path attempt line).fault.isSome) :
      (walk.record path attempt line).visits = walk.visits ∧
        (walk.record path attempt line).line = walk.line := by
    rcases attempt with ⟨state, _ | fault⟩
    · simp [record, sound] at failed
    · exact ⟨rfl, rfl⟩
  unfold visit at failed ⊢
  split
  next => exact ⟨rfl, rfl⟩
  next isConstruct =>
    simp only [isConstruct] at failed
    exact unrecorded _ _ failed
  next isTerminal =>
    simp only [isTerminal] at failed
    split at failed
    next => simp
    next => exact unrecorded _ _ failed

/-- Visits come to their end, or to a node whose visit fails. -/
theorem visitEach_progress (settings : Settings) {walk : Walk} (sound : walk.fault = none)
    (nodes : List (Path × Element)) :
    ∃ done left, nodes = done ++ left ∧ (visitEach settings walk done).fault = none ∧
      (left = [] ∨ ∃ failed later, left = failed :: later ∧
        visitEach settings walk nodes =
          (visitEach settings walk done).visit settings failed.1 failed.2 ∧
        (visitEach settings walk nodes).fault.isSome) := by
  induction nodes generalizing walk with
  | nil => exact ⟨[], [], rfl, sound, Or.inl rfl⟩
  | cons entry rest ih =>
      rcases entry with ⟨path, node⟩
      by_cases failed : (walk.visit settings path node).fault.isSome
      · refine ⟨[], (path, node) :: rest, rfl, sound, Or.inr ⟨_, rest, rfl, ?_, ?_⟩⟩
        · simp [visitEach, failed]
        · simp [visitEach, failed]
      · have goesOn (others : List (Path × Element)) :
            visitEach settings walk ((path, node) :: others) =
              visitEach settings (walk.visit settings path node) others := by
          simp [visitEach, failed]
        rcases ih (by simpa using failed) with ⟨done, left, isSplit, came, outcome⟩
        refine ⟨(path, node) :: done, left, by rw [isSplit, List.cons_append], ?_, ?_⟩
        · rwa [goesOn]
        · rwa [goesOn, goesOn]

/-- A walk is the recursion through its tree, whatever the tree and the state it starts in.  The nodes
that can be reached from the root, in the order of their places, are first those whose visits come off,
one after the other, each taking up the state that the one before it left; if the visit of a node
fails, the walk is over with it, and its line is that of the last terminal that was done with. -/
theorem below_eq_descend (settings : Settings) (state : State) (path : Path) (tree : Element) :
    below settings state path tree = descend settings { state := state } path tree ∧
      ∃ (done left : List (Path × Element)) (reached : Walk),
        (∀ place node, (place, node) ∈ done ++ left ↔ tree.Reached path place node) ∧
        ((done ++ left).map Prod.fst).Pairwise (· < ·) ∧
        reached = visitEach settings { state := state } done ∧
        reached.fault = none ∧
        reached.visits.toList.map Prod.fst = done.map Prod.fst ∧
        reached.line = Agenda.lineBehind 1 done ∧
        match left with
        | [] => below settings state path tree = reached
        | failed :: _ =>
          below settings state path tree = reached.visit settings failed.1 failed.2 ∧
            (below settings state path tree).fault.isSome ∧
            (below settings state path tree).visits = reached.visits ∧
            (below settings state path tree).line = reached.line := by
  have inOrder := below_eq_visitEach settings state path tree
  refine ⟨inOrder.trans (descend_eq_visitEach _ _ _).symm, ?_⟩
  have start : ({ state := state } : Walk).fault = none := rfl
  rcases visitEach_progress settings start (tree.preorder path) with
    ⟨done, left, isSplit, came, outcome⟩
  rcases visitEach_recorded came with ⟨recorded, line⟩
  refine ⟨done, left, _, ?_, ?_, rfl, came, by simpa using recorded, line, ?_⟩
  · intro place node
    rw [← isSplit]
    exact Element.mem_preorder_iff_reached
  · rw [← isSplit]
    exact Element.preorder_ascending path tree
  · rcases outcome with rfl | ⟨failed, later, rfl, stopped, isFault⟩
    · rw [inOrder, isSplit, List.append_nil]
    · rw [← inOrder] at stopped isFault
      have unrecorded := visit_of_fault settings came (stopped ▸ isFault)
      exact ⟨stopped, isFault, by rw [stopped]; exact unrecorded.1, by rw [stopped]; exact unrecorded.2⟩

end Walk

end CrossRef
