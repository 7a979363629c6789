import CrossRef.Proofs.MovedPlans
import Mathlib.Logic.Relation

/-!
# Levels of operators

A primary stands deep below the test that it belongs to, and between them there is a node for each level
of operators, most of them with a single child.  Such a node makes no difference: the walk of the tree in
which its child has taken its place finishes or fails with the walk of the tree, with the same lines and
the same counts.

What lies below the level has moved up by one position.  Both walks go along with each other with their
notes at the places that correspond, and the walk of the tree makes one more visit, to the level, which
does nothing.
-/

namespace CrossRef

namespace Relocation

/-- Moves what is at a place or below it down to a child of the place. -/
def descend (top : Path) (position : Nat) (place : Path) : Path :=
  if top <+: place then top ++ position :: place.drop top.length else place

theorem descend_below (top : Path) (position : Nat) (rest : Path) :
    descend top position (top ++ rest) = top ++ position :: rest := by
  simp [descend]

theorem descend_beside {top place : Path} (beside : ¬ top <+: place) (position : Nat) :
    descend top position place = place := by
  rw [descend, if_neg beside]

theorem descend_injective (top : Path) (position : Nat) : Function.Injective (descend top position) := by
  intro first second same
  by_cases firstBelow : top <+: first <;> by_cases secondBelow : top <+: second
  · rcases firstBelow with ⟨firstRest, rfl⟩
    rcases secondBelow with ⟨secondRest, rfl⟩
    simpa [descend_below] using same
  · rcases firstBelow with ⟨firstRest, rfl⟩
    rw [descend_below, descend_beside secondBelow] at same
    exact absurd ⟨position :: firstRest, same⟩ secondBelow
  · rcases secondBelow with ⟨secondRest, rfl⟩
    rw [descend_below, descend_beside firstBelow] at same
    exact absurd ⟨position :: secondRest, same.symm⟩ firstBelow
  · rwa [descend_beside firstBelow, descend_beside secondBelow] at same

/-- Places at or below a place are moved to a child of it and all others stay. -/
def below (top : Path) (position : Nat) : Relocation :=
  ⟨descend top position, descend_injective top position⟩

end Relocation

namespace Element

/-- A tree and the one in which a level of operators below a test or another level has given its place to
its only child.  The route leads to the level, and the position is that of the child in it. -/
inductive Skips : Path → Nat → Element → Element → Prop where
  | here {kind child : Element} {elements : List Element} {position : Nat} (before after : List Element)
      (isClosed : kind.isNumberIn Kind.closed = true)
      (isLevel : (node elements).isOfKindIn Kind.levels = true)
      (onlyChild : (node elements).children [] = [([position], child)]) :
      Skips [before.length + 1] position (.node (kind :: (before ++ .node elements :: after)))
        (.node (kind :: (before ++ child :: after)))
  | inside (kind : Element) (before after : List Element) {inner thinner : Element} {route : Path}
      {position : Nat} (skips : Skips route position inner thinner) :
      Skips ((before.length + 1) :: route) position (.node (kind :: (before ++ inner :: after)))
        (.node (kind :: (before ++ thinner :: after)))

/-- A tree and the one in which one level of operators has given its place to its only child. -/
def SkipsLevel (full thin : Element) : Prop :=
  ∃ route position, Skips route position full thin

section

variable {route : Path} {position : Nat} {full thin : Element}

theorem Skips.resembles (skips : Skips route position full thin) : Resembles thin full := by
  induction skips with
  | here before after isClosed isLevel onlyChild => exact .closed isClosed (by simp)
  | inside kind before after skips ih =>
      apply Resembles.node
      apply List.rel_append
      · exact List.forall₂_same.mpr fun element _ => .refl element
      · exact .cons ih (List.forall₂_same.mpr fun element _ => .refl element)

/-- No clear way leads to the level that is skipped. -/
theorem Skips.not_clear (skips : Skips route position full thin) {rest : Path} (clear : thin.Clear rest) :
    ¬ route <+: rest := by
  induction skips generalizing rest with
  | @here kind child elements position before after isClosed isLevel onlyChild =>
      cases clear with
      | here => simp
      | descend isOpen isChild clear =>
          rw [isOpen_closed isClosed] at isOpen
          cases isOpen
  | inside kind before after skips ih =>
      cases clear with
      | here => simp
      | @descend _ child index rest isOpen isChild clear =>
          intro leads
          rw [List.cons_prefix_cons] at leads
          rcases leads with ⟨rfl, leads⟩
          simp [elements] at isChild
          cases isChild
          exact ih clear leads

theorem Skips.isNode (skips : Skips route position full thin) :
    (∃ elements, full = .node elements) ∧ ∃ elements, thin = .node elements := by
  cases skips <;> exact ⟨⟨_, rfl⟩, _, rfl⟩

end

theorem nodesFrom_eq_map (path : Path) (position : Nat) (elements : List Element) :
    nodesFrom path position elements =
      (nodesFrom [] position elements).map fun entry => (path ++ entry.1, entry.2) := by
  induction elements generalizing position with
  | nil => rfl
  | cons element rest ih =>
      cases element with
      | node inner => simp [nodesFrom, ih (position + 1)]
      | null | bool value | int value | float value | text value | list inner =>
          exact ih (position + 1)

theorem children_eq_map (path : Path) (node : Element) :
    node.children path = (node.children []).map fun entry => (path ++ entry.1, entry.2) :=
  nodesFrom_eq_map path 1 node.elements.tail

end Element

/-! ## Two walks side by side -/

/-- A node that the walk of the thinner tree has still to come to, and the node that corresponds to it in
the walk of the tree. -/
inductive Agenda.Paired (top : Path) (position : Nat) : Path × Element → Path × Element → Prop where
  | same {place moved : Path} (node : Element)
      (steady : ∀ rest, (Relocation.below top position).move (place ++ rest) = moved ++ rest) :
      Paired top position (place, node) (moved, node)
  | around {place route : Path} {full thin : Element} (isWay : top = place ++ route)
      (skips : Element.Skips route position full thin) : Paired top position (place, thin) (place, full)
  | level {elements : List Element} {child : Element}
      (isLevel : (Element.node elements).isOfKindIn Kind.levels = true)
      (onlyChild : (Element.node elements).children [] = [([position], child)]) :
      Paired top position (top, child) (top, .node elements)

namespace Agenda

variable {top : Path} {position : Nat}

theorem nodesFrom_paired {place moved : Path} (start : Nat) (elements : List Element)
    (steady : ∀ index, start ≤ index → index < start + elements.length → ∀ rest,
      (Relocation.below top position).move (place ++ index :: rest) = moved ++ index :: rest) :
    List.Forall₂ (Paired top position) (Element.nodesFrom place start elements)
      (Element.nodesFrom moved start elements) := by
  induction elements generalizing start with
  | nil => exact .nil
  | cons element rest ih =>
      have behind := ih (start + 1) fun index atLeast inside =>
        steady index (by omega) (by simp only [List.length_cons]; omega)
      cases element with
      | node inner =>
          refine .cons (.same _ ?_) behind
          intro further
          rw [List.append_assoc, List.append_assoc]
          exact steady start (Nat.le_refl start) (by simp) further
      | null | bool value | int value | float value | text value | list inner => exact behind

theorem children_paired_same {place moved : Path} {node : Element}
    (steady : ∀ rest, (Relocation.below top position).move (place ++ rest) = moved ++ rest) :
    List.Forall₂ (Paired top position) (node.children place) (node.children moved) := by
  apply nodesFrom_paired
  intro index _ _ rest
  exact steady (index :: rest)

theorem steady_beside {place : Path} {index other : Nat} {route : Path} (isWay : top = place ++ index :: route)
    (different : index ≠ other) (rest : Path) :
    (Relocation.below top position).move (place ++ other :: rest) = place ++ other :: rest := by
  apply Relocation.descend_beside
  rw [isWay]
  intro leads
  rw [List.prefix_append_right_inj, List.cons_prefix_cons] at leads
  exact different leads.1

/-- The nodes beside the one on the way to the level stay where they are. -/
theorem siblings_paired {place route : Path} {before after inner thinner : List Element}
    (isWay : top = place ++ (before.length + 1) :: route)
    (pair : Paired top position (place ++ [before.length + 1], .node thinner)
      (place ++ [before.length + 1], .node inner)) :
    List.Forall₂ (Paired top position) (Element.nodesFrom place 1 (before ++ .node thinner :: after))
      (Element.nodesFrom place 1 (before ++ .node inner :: after)) := by
  rw [Nat.add_comm] at pair
  rw [Element.nodesFrom_append, Element.nodesFrom_append, Element.nodesFrom, Element.nodesFrom]
  apply List.rel_append
  · apply nodesFrom_paired
    intro other _ inside rest
    exact steady_beside isWay (by omega) rest
  · apply List.Forall₂.cons pair
    apply nodesFrom_paired
    intro other beyond _ rest
    exact steady_beside isWay (by omega) rest

/-- Around the level that is skipped the children correspond one by one. -/
theorem children_paired_around {place route : Path} {full thin : Element} (isWay : top = place ++ route)
    (skips : Element.Skips route position full thin) :
    List.Forall₂ (Paired top position) (thin.children place) (full.children place) := by
  cases skips with
  | @here kind child elements _ before after isClosed isLevel onlyChild =>
      have isChild : ([position], child) ∈ (Element.node elements).children [] := by
        rw [onlyChild]
        exact List.mem_singleton_self _
      rcases Element.mem_children.mp isChild with ⟨index, inner, _, same⟩
      cases same
      apply siblings_paired isWay
      rw [← isWay]
      exact .level isLevel onlyChild
  | @inside kind before after inner thinner route _ skips =>
      rcases skips.isNode with ⟨⟨elements, rfl⟩, ⟨others, rfl⟩⟩
      apply siblings_paired isWay
      exact .around (by rw [isWay, List.append_assoc]; rfl) skips

/-- Nodes that correspond resemble each other and so do their children, or the second one is the level
and the first one corresponds to the child of it. -/
theorem Paired.cases {place other : Path} {node twin : Element}
    (pair : Paired top position (place, node) (other, twin)) :
    (Element.Relocated (.below top position) place other node twin ∧
        List.Forall₂ (Paired top position) (node.children place) (twin.children other)) ∨
      (twin.isOfKindIn Kind.levels = true ∧
        List.Forall₂ (Paired top position) [(place, node)] (twin.children other)) := by
  cases pair with
  | same node steady => exact Or.inl ⟨⟨.refl node, fun rest _ => steady rest⟩, children_paired_same steady⟩
  | around isWay skips =>
      refine Or.inl ⟨⟨skips.resembles, ?_⟩, children_paired_around isWay skips⟩
      intro rest clear
      apply Relocation.descend_beside
      rw [isWay, List.prefix_append_right_inj]
      exact skips.not_clear clear
  | level isLevel onlyChild =>
      refine Or.inr ⟨isLevel, ?_⟩
      rw [Element.children_eq_map, onlyChild]
      refine .cons (.same node ?_) .nil
      intro rest
      rw [List.append_assoc]
      exact Relocation.descend_below top position rest

end Agenda

/-- A state without its notes for places still to come. -/
def State.unnoted (state : State) : State :=
  { state with marks := [], awaited := [] }

namespace Walk

/-- Two walks whose notes are at places that correspond, and which have failed both or neither. -/
structure Moved (relocation : Relocation) (first second : Walk) : Prop where
  state : second.state = first.state.relocate relocation
  line : second.line = first.line
  fault : second.fault.isSome = first.fault.isSome

variable {settings : Settings} {relocation : Relocation}

theorem record_moved {first second : Walk} (moved : first.Moved relocation second) (place other : Path)
    {attempt otherAttempt : Attempt} (attempts : attempt.Moved relocation otherAttempt) (line : Int) :
    (first.record place attempt line).Moved relocation (second.record other otherAttempt line) := by
  have state := attempts.state
  have fault := attempts.fault
  rcases attempt with ⟨next, _ | firstFault⟩
  · rcases otherAttempt with ⟨otherNext, _ | secondFault⟩
    · exact ⟨state, rfl, moved.fault⟩
    · cases fault
  · rcases otherAttempt with ⟨otherNext, _ | secondFault⟩
    · cases fault
    · exact ⟨state, moved.line, rfl⟩

/-- A visit to a node and one to the node that corresponds to it. -/
theorem visit_moved (version : settings.grammar ∈ Grammar.versions) {first second : Walk}
    (moved : first.Moved relocation second) {place other : Path} {node twin : Element}
    (pair : Element.Relocated relocation place other node twin) :
    (first.visit settings place node).Moved relocation (second.visit settings other twin) := by
  have sameSort : twin.isConstruct = node.isConstruct := by
    unfold Element.isConstruct
    rw [pair.alike.kind]
  unfold visit
  rw [sameSort, moved.state, moved.line]
  cases isConstruct : node.isConstruct with
  | error fault => exact ⟨rfl, rfl, rfl⟩
  | ok construct =>
      cases construct with
      | true =>
          apply record_moved moved
          exact first.state.takeAll_moved _ (Plan.construct_moved version pair first.state)
      | false =>
          have isOpen := Plan.isOpen_of_terminal isConstruct
          have sameNumber : twin.lineNumber = node.lineNumber := by
            have numbers : Element.Matching _ (node.entry 2) (twin.entry 2) := pair.entry_front isOpen 2
            unfold Element.lineNumber
            rcases numbers.cases with ⟨fault, isError, alsoError⟩ | ⟨number, also, isNumber, isAlso, found⟩
            · rw [isError, alsoError]
            · rw [isNumber, isAlso]
              exact found.alike.toInteger
          rw [sameNumber]
          cases node.lineNumber with
          | error fault => exact ⟨rfl, rfl, rfl⟩
          | ok number =>
              apply record_moved moved
              exact first.state.takeAll_moved _ (Plan.terminal_moved settings pair isOpen first.state number)

/-- A visit to a level does nothing. -/
theorem visit_level (version : settings.grammar ∈ Grammar.versions) (walk : Walk) (place : Path)
    {level : Element} (isLevel : level.isOfKindIn Kind.levels = true) :
    let next := walk.visit settings place level
    next.state = walk.state ∧ next.line = walk.line ∧ next.fault = walk.fault := by
  rcases List.any_eq_true.mp isLevel with ⟨number, member, isKind⟩
  have reached : ∀ number ∈ Kind.levels, Kind.firstConstruct ≤ number := by decide
  have planless : ∀ grammar ∈ Grammar.versions, ∀ number ∈ Kind.levels,
      grammar.constructOf (.int number) = .other := by decide
  rcases Element.exists_kind isKind with ⟨kind, hasKind, isNumber⟩
  have isOther : settings.grammar.constructOf kind = .other := by
    rw [Grammar.constructOf_eq isNumber]
    exact planless _ version number member
  simp only [visit, Element.isConstruct_of_isOfKind isKind (reached number member), State.visitConstruct,
    Plan.construct, hasKind, isOther, Plan.ofConstruct, State.takeAll, record, and_self]

/-- Two walks side by side.  The walk of the tree makes the visits of the other walk, and one to the level
that is skipped. -/
theorem run_moved (version : settings.grammar ∈ Grammar.versions) {top : Path} {position : Nat}
    {first second : Walk} (moved : first.Moved (.below top position) second) (sound : second.fault = none)
    {agenda others : Agenda} (pairs : List.Forall₂ (Agenda.Paired top position) agenda others) :
    (run settings first agenda).Moved (.below top position) (run settings second others) := by
  fun_induction run settings second others generalizing first agenda
  case case1 second =>
    cases pairs
    rw [run]
    exact moved
  case case2 second other twin pending next faulty =>
    cases pairs with
    | @cons entry _ rest _ pair behind =>
        rcases entry with ⟨place, node⟩
        rcases pair.cases with ⟨related, _⟩ | ⟨isLevel, _⟩
        · have visited := visit_moved version moved related
          rw [run, if_pos (visited.fault.symm.trans faulty)]
          exact visited
        · rw [(visit_level version second other isLevel).2.2, sound] at faulty
          cases faulty
  case case3 second other twin pending next unfailed ih =>
    rw [Agenda.pushAll_eq] at ih ⊢
    have nextSound := Option.not_isSome_iff_eq_none.mp unfailed
    cases pairs with
    | @cons entry _ rest _ pair behind =>
        rcases entry with ⟨place, node⟩
        rcases pair.cases with ⟨related, children⟩ | ⟨isLevel, children⟩
        · have visited := visit_moved version moved related
          rw [run, if_neg (visited.fault ▸ unfailed), Agenda.pushAll_eq]
          exact ih visited nextSound (List.rel_append children behind)
        · rcases visit_level version second other isLevel with ⟨sameState, sameLine, sameFault⟩
          have stays : first.Moved (.below top position) next := by
            refine ⟨sameState.trans moved.state, sameLine.trans moved.line, ?_⟩
            rw [sameFault]
            exact moved.fault
          exact ih stays nextSound (List.rel_append children behind)

theorem ofTree_moved (version : settings.grammar ∈ Grammar.versions) {full thin : Element} {route : Path}
    {position : Nat} (skips : Element.Skips route position full thin) :
    (ofTree settings thin).Moved (.below route position) (ofTree settings full) := by
  apply run_moved version ⟨rfl, rfl, rfl⟩ rfl
  exact .cons (.around (List.nil_append route).symm skips) .nil

/-- Levels of operators make no difference.  Skipping any number of them changes neither whether the walk
of a tree comes to its end nor what it has written, and leaves all its counts as they are. -/
theorem ofTree_levels (version : settings.grammar ∈ Grammar.versions) {tree thinner : Element}
    (thins : Relation.ReflTransGen Element.SkipsLevel tree thinner) :
    let full := ofTree settings tree
    let thin := ofTree settings thinner
    thin.fault.isSome = full.fault.isSome ∧ thin.state.rendered = full.state.rendered ∧
      thin.state.indentation = full.state.indentation ∧
      thin.state.functionLevel = full.state.functionLevel ∧
      thin.state.importHalves = full.state.importHalves ∧ thin.state.importing = full.state.importing ∧
      thin.state.assigning = full.state.assigning := by
  intro full thin
  have agree : thin.fault.isSome = full.fault.isSome ∧ thin.state.unnoted = full.state.unnoted := by
    induction thins with
    | refl => exact ⟨rfl, rfl⟩
    | tail _ skips ih =>
        rcases skips with ⟨route, position, skips⟩
        have moved := ofTree_moved version skips
        refine ⟨moved.fault.symm.trans ih.1, ?_⟩
        rw [← ih.2, moved.state]
        rfl
  have field {Value : Type} (read : State → Value) : read thin.state.unnoted = read full.state.unnoted :=
    congrArg read agree.2
  exact ⟨agree.1, field State.rendered, field State.indentation, field State.functionLevel,
    field State.importHalves, field State.importing, field State.assigning⟩

/-- A primary that is a name. -/
def namePrimary (text : String) : Element :=
  .node [.int 319, .node [.int 320, .node [.int 1, .text text, .int 1]]]

/-- The tree of an assignment to what stands right below a test. -/
def assignmentTo (target : Element) : Element :=
  .node [.int 257,
    .node [.int 271, .node [.int 272, .node [.int 302, target]], .node [.int 22, .text "=", .int 1],
      .node [.int 272, .node [.int 302, namePrimary "b"]]],
    .node [.int 4, .text "", .int 1], .node [.int 0, .text "", .int 2]]

theorem skipsLevel_assignmentTo {level : List Element} {child : Element}
    (isLevel : (Element.node level).isOfKindIn Kind.levels = true)
    (onlyChild : (Element.node level).children [] = [([1], child)]) :
    Element.SkipsLevel (assignmentTo (.node level)) (assignmentTo child) := by
  have below : Element.Skips [1] 1 (.node [.int 302, .node level]) (.node [.int 302, child]) :=
    .here [] [] (by decide) isLevel onlyChild
  exact ⟨[1, 1, 1, 1], 1, .inside (.int 257) [] _ (.inside (.int 271) [] _ (.inside (.int 272) [] [] below))⟩

theorem ofTree_levels_assignment :
    let leveled := assignmentTo (.node [.int 306, .node [.int 318, namePrimary "a"]])
    let bare := assignmentTo (namePrimary "a")
    Relation.ReflTransGen Element.SkipsLevel leveled bare ∧
      (ofTree {} bare).state.rendered = ["1 \n\t=a\n = \nb\n\n"] ∧
      (ofTree {} leveled).state.rendered = ["1 \n\t=a\n = \nb\n\n"] := by
  intro leveled bare
  have thins : Relation.ReflTransGen Element.SkipsLevel leveled bare :=
    .tail (.tail .refl (skipsLevel_assignmentTo (by decide) rfl)) (skipsLevel_assignmentTo (by decide) rfl)
  have written : (ofTree {} bare).state.rendered = ["1 \n\t=a\n = \nb\n\n"] := by
    rw [ofTree_eq_visitEach]
    decide +kernel
  have agree := @ofTree_levels {} List.mem_cons_self leveled bare thins
  exact ⟨thins, written, agree.2.1.symm.trans written⟩

end Walk

end CrossRef
