import CrossRef.Walk.Preorder

/-!
# Walks that come to their end

A walk that meets no fault is a chain of visits, each of which takes one state to the next.
`Passage` is that chain, without the agenda and without the record that a walk keeps, and it is what
the inductions about whole walks go over.  The record of a walk tells in which state it met each
node; read in the order of the tree it gives the meetings of the walk, and these are the links of
the chain.
-/

namespace CrossRef

namespace Element

/-- Whether a node is a terminal. -/
def isTerminal (node : Element) : Bool :=
  match node.isConstruct with
  | .ok false => true
  | _ => false

/-- Whether a node is of the given kind. -/
def isOfKind (node : Element) (number : Nat) : Bool :=
  match node.kind with
  | .ok kind => kind.isNumber number
  | .error _ => false

/-- The terminals of a tree in the order of reading. -/
def terminals (tree : Element) : List Element :=
  ((tree.preorder []).map (·.2)).filter isTerminal

theorem isTerminal_iff {node : Element} : node.isTerminal = true ↔ node.isConstruct = .ok false := by
  unfold isTerminal
  split
  next terminal => simp [terminal]
  next other => simpa using other

end Element

namespace State

/-- A visit that comes off takes one state to another. -/
inductive Passes (settings : Settings) (before : State) (path : Path) (node : Element)
    (after : State) : Prop where
  | construct (isConstruct : node.isConstruct = .ok true)
      (visited : before.visitConstruct settings path node = ⟨after, none⟩)
  | terminal (number : Int) (isTerminal : node.isConstruct = .ok false)
      (numbered : node.lineNumber = .ok number)
      (visited : before.visitTerminal settings path node number = ⟨after, none⟩)

/-- A chain of visits, listed as the nodes that were met, each with the state it was met in. -/
inductive Passage (settings : Settings) : State → List (State × Path × Element) → State → Prop where
  | nil (state : State) : Passage settings state [] state
  | cons {before middle after : State} {path : Path} {node : Element}
      {rest : List (State × Path × Element)} (first : before.Passes settings path node middle)
      (others : Passage settings middle rest after) :
      Passage settings before ((before, path, node) :: rest) after

variable {settings : Settings}

/-- What every visit of a chain preserves, the chain preserves. -/
theorem Passage.preserves {motive : State → Prop} {start finish : State}
    {meetings : List (State × Path × Element)} (passage : Passage settings start meetings finish)
    (each : ∀ entry ∈ meetings, ∀ before after, motive before →
      before.Passes settings entry.2.1 entry.2.2 after → motive after)
    (holds : motive start) : motive finish := by
  induction passage with
  | nil state => exact holds
  | cons first others ih =>
      apply ih
      · intro entry member
        exact each entry (List.mem_cons_of_mem _ member)
      · exact each _ List.mem_cons_self _ _ holds first

theorem Passage.append {start middle finish : State} {early late : List (State × Path × Element)}
    (first : Passage settings start early middle) (second : Passage settings middle late finish) :
    Passage settings start (early ++ late) finish := by
  induction first with
  | nil state => exact second
  | cons passes others ih => exact .cons passes (ih second)

theorem Passage.of_append {start finish : State} {early late : List (State × Path × Element)}
    (passage : Passage settings start (early ++ late) finish) :
    ∃ middle, Passage settings start early middle ∧ Passage settings middle late finish := by
  induction early generalizing start with
  | nil => exact ⟨start, .nil start, passage⟩
  | cons entry rest ih =>
      cases passage with
      | cons first others =>
          rcases ih others with ⟨middle, before, behind⟩
          exact ⟨middle, .cons first before, behind⟩

/-- A chain of visits through the given nodes. -/
def Chains (settings : Settings) (before : State) (nodes : List (Path × Element)) (after : State) :
    Prop :=
  ∃ meetings, Passage settings before meetings after ∧ meetings.map (·.2) = nodes

theorem Chains.nil (state : State) : Chains settings state [] state :=
  ⟨[], .nil state, rfl⟩

theorem Chains.cons {before middle after : State} {path : Path} {node : Element}
    {rest : List (Path × Element)} (first : before.Passes settings path node middle)
    (others : Chains settings middle rest after) :
    Chains settings before ((path, node) :: rest) after := by
  rcases others with ⟨meetings, passage, rfl⟩
  exact ⟨_, .cons first passage, rfl⟩

theorem Chains.append {before middle after : State} {early late : List (Path × Element)}
    (first : Chains settings before early middle) (second : Chains settings middle late after) :
    Chains settings before (early ++ late) after := by
  rcases first with ⟨firstMeetings, firstPassage, rfl⟩
  rcases second with ⟨secondMeetings, secondPassage, rfl⟩
  exact ⟨_, firstPassage.append secondPassage, List.map_append⟩

end State

namespace Walk

variable {settings : Settings}

theorem record_passes {walk : Walk} {path : Path} {attempt : Attempt} {line : Int}
    (sound : (walk.record path attempt line).fault = none) :
    attempt = ⟨(walk.record path attempt line).state, none⟩ ∧
      (walk.record path attempt line).visits =
        walk.visits.push (path, (walk.record path attempt line).state) := by
  rcases attempt with ⟨state, _ | fault⟩
  · exact ⟨rfl, rfl⟩
  · simp [record] at sound

/-- A visit without a fault takes the walk's state to the next and is recorded. -/
theorem visit_passes {walk : Walk} {path : Path} {node : Element}
    (sound : (walk.visit settings path node).fault = none) :
    walk.state.Passes settings path node (walk.visit settings path node).state ∧
      (walk.visit settings path node).visits =
        walk.visits.push (path, (walk.visit settings path node).state) := by
  cases sort : node.isConstruct with
  | error fault => simp [visit, sort] at sound
  | ok isConstruct =>
      cases isConstruct with
      | true =>
          simp only [visit, sort] at sound ⊢
          rcases record_passes sound with ⟨visited, recorded⟩
          exact ⟨.construct sort visited, recorded⟩
      | false =>
          cases numbered : node.lineNumber with
          | error fault => simp [visit, sort, numbered] at sound
          | ok number =>
              simp only [visit, sort, numbered] at sound ⊢
              rcases record_passes sound with ⟨visited, recorded⟩
              exact ⟨.terminal number sort numbered visited, recorded⟩

/-- The nodes of a tree in the order of reading, each with the state in which a walk of the whole
tree met it: the state that the visit before it left. -/
def meetings (walk : Walk) (tree : Element) : List (State × Path × Element) :=
  (({} : State) :: walk.visits.toList.map (·.2)).zip (tree.preorder [])

/-- If all visits come off, so does the first, and the others go on from it. -/
theorem visitEach_cons {walk : Walk} {path : Path} {node : Element} {rest : List (Path × Element)}
    (sound : (visitEach settings walk ((path, node) :: rest)).fault = none) :
    (walk.visit settings path node).fault = none ∧
      visitEach settings walk ((path, node) :: rest) =
        visitEach settings (walk.visit settings path node) rest := by
  have firstSound : (walk.visit settings path node).fault = none := by
    cases faulty : (walk.visit settings path node).fault with
    | none => rfl
    | some fault => simp [visitEach, faulty] at sound
  exact ⟨firstSound, by simp [visitEach, firstSound]⟩

/-- Visits that all come off are a chain, and the record of the walk grows by the states between
them. -/
theorem visitEach_passage {nodes : List (Path × Element)} {walk : Walk}
    (sound : (visitEach settings walk nodes).fault = none) :
    ∃ later : List State, later.length = nodes.length ∧
      (visitEach settings walk nodes).visits.toList.map (·.2) = walk.visits.toList.map (·.2) ++ later ∧
      State.Passage settings walk.state ((walk.state :: later).zip nodes)
        (visitEach settings walk nodes).state := by
  induction nodes generalizing walk with
  | nil => exact ⟨[], rfl, by simp [visitEach], by simpa [visitEach] using .nil walk.state⟩
  | cons entry rest ih =>
      rcases entry with ⟨path, node⟩
      rcases visitEach_cons sound with ⟨firstSound, goesOn⟩
      rcases visit_passes firstSound with ⟨passes, recorded⟩
      rw [goesOn] at sound ⊢
      rcases ih sound with ⟨later, count, grown, passage⟩
      refine ⟨(walk.visit settings path node).state :: later, ?_, ?_, ?_⟩
      · simp [count]
      · rw [grown, recorded]
        simp
      · exact .cons passes passage

/-- The record of a walk that comes to its end: the states that its visits left, which lead through
the tree in the order of reading. -/
theorem ofTree_passage {tree : Element} (complete : (ofTree settings tree).fault = none) :
    ∃ later : List State, later.length = (tree.preorder []).length ∧
      (ofTree settings tree).visits.toList.map (·.2) = later ∧
      State.Passage settings {} ((({} : State) :: later).zip (tree.preorder []))
        (ofTree settings tree).state := by
  rw [ofTree_eq_visitEach] at complete ⊢
  rcases visitEach_passage complete with ⟨later, count, grown, passage⟩
  exact ⟨later, count, by simpa using grown, passage⟩

theorem visitEach_of_passage {walk : Walk} {after : State} (sound : walk.fault = none)
    {meetings : List (State × Path × Element)}
    (passage : State.Passage settings walk.state meetings after) :
    (visitEach settings walk (meetings.map (·.2))).fault = none ∧
      (visitEach settings walk (meetings.map (·.2))).state = after := by
  generalize start : walk.state = before at passage
  induction passage generalizing walk with
  | nil state => exact ⟨sound, start⟩
  | @cons before middle after path node rest first others ih =>
      subst start
      have visited : (walk.visit settings path node).fault = none ∧
          (walk.visit settings path node).state = middle := by
        cases first with
        | construct isConstruct visited => simp [visit, isConstruct, visited, record, sound]
        | terminal number isTerminal numbered visited =>
            simp [visit, isTerminal, numbered, visited, record, sound]
      simp only [List.map_cons, visitEach, visited.1, Option.isSome_none, Bool.false_eq_true, if_false]
      exact ih visited.1 visited.2

/-- A chain of visits through the nodes of a tree is a walk of the tree. -/
theorem ofTree_of_chains {tree : Element} {after : State}
    (chains : State.Chains settings {} (tree.preorder []) after) :
    (ofTree settings tree).fault = none ∧ (ofTree settings tree).state = after := by
  rcases chains with ⟨meetings, passage, nodes⟩
  rw [ofTree_eq_visitEach, ← nodes]
  exact visitEach_of_passage rfl passage

/-- A walk that comes to its end meets every node of the tree once. -/
theorem meetings_nodes {tree : Element} (complete : (ofTree settings tree).fault = none) :
    ((ofTree settings tree).meetings tree).map (·.2) = tree.preorder [] := by
  rcases ofTree_passage complete with ⟨later, count, recorded, _⟩
  unfold meetings
  rw [recorded]
  apply List.map_snd_zip
  simp [count]

/-- A walk that comes to its end is the chain of its meetings. -/
theorem passage_ofTree {tree : Element} (complete : (ofTree settings tree).fault = none) :
    State.Passage settings {} ((ofTree settings tree).meetings tree)
      (ofTree settings tree).state := by
  rcases ofTree_passage complete with ⟨later, _, recorded, passage⟩
  unfold meetings
  rw [recorded]
  exact passage

/-- A split of the nodes of a tree is a split of the meetings with them. -/
theorem exists_met {tree : Element} (complete : (ofTree settings tree).fault = none)
    {before behind : List (Path × Element)} {path : Path} {node : Element}
    (isSplit : tree.preorder [] = before ++ (path, node) :: behind) :
    ∃ early state late,
      (ofTree settings tree).meetings tree = early ++ (state, path, node) :: late ∧
        early.map (·.2) = before ∧ late.map (·.2) = behind := by
  rw [← meetings_nodes complete] at isSplit
  rcases List.map_eq_append_iff.mp isSplit with ⟨early, rest, met, isBefore, isRest⟩
  rcases List.map_eq_cons_iff.mp isRest with ⟨⟨state, _, _⟩, late, rfl, isNode, isBehind⟩
  cases isNode
  exact ⟨early, state, late, met, isBefore, isBehind⟩

/-- How a walk came to a node that it met, and how it went on. -/
theorem passage_of_met {tree : Element} (complete : (ofTree settings tree).fault = none)
    {early late : List (State × Path × Element)} {state : State} {path : Path} {node : Element}
    (met : (ofTree settings tree).meetings tree = early ++ (state, path, node) :: late) :
    ∃ after, State.Passage settings {} early state ∧ state.Passes settings path node after ∧
      State.Passage settings after late (ofTree settings tree).state := by
  have passage := passage_ofTree complete
  rw [met] at passage
  rcases passage.of_append with ⟨_, first, second⟩
  cases second with
  | @cons _ after _ _ _ _ passes others => exact ⟨after, first, passes, others⟩

end Walk

end CrossRef
