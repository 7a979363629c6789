import CrossRef.Proofs.Lookahead
import CrossRef.Proofs.Places
import CrossRef.Proofs.Symbols

/-!
# Notes are for what is still to come

A walk works off an agenda, and everything that it has noted is for nodes that the agenda still leads
to.  A construct notes things for places below it, which its children bring back onto the agenda; a
name and a dot use their mark up, and an expression that is awaited leaves the list when it is met.
One sort of terminal can hold a mark and has no use for it, the ellipsis of version 3: its mark stays
behind when the walk has passed it, and is never used.
-/

namespace CrossRef

namespace Element

mutual

/-- Whether all sequences in a tree are nodes. -/
def listFree : Element → Bool
  | .list _ => false
  | .node elements => allListFree elements
  | _ => true

/-- Whether all sequences in some trees are nodes. -/
def allListFree : List Element → Bool
  | [] => true
  | first :: rest => first.listFree && allListFree rest

end

theorem allListFree_eq_all (elements : List Element) :
    allListFree elements = elements.all listFree := by
  induction elements with
  | nil => rfl
  | cons first rest ih => rw [allListFree, ih, List.all_cons]

theorem listFree_element {node child : Element} {index : Nat} (free : node.listFree = true)
    (isChild : node.elements[index]? = some child) : child.listFree = true := by
  cases node with
  | node elements =>
      rw [listFree, allListFree_eq_all, List.all_eq_true] at free
      exact free child (List.mem_of_getElem? isChild)
  | list elements => cases free
  | null | bool value | int value | float value | text value => simp [elements] at isChild

theorem exists_node_of_kind {node : Element} {number : Nat} (free : node.listFree = true)
    (hasKind : node.isOfKind number = true) : ∃ elements, node = .node elements := by
  cases node with
  | node elements => exact ⟨elements, rfl⟩
  | list elements => cases free
  | text value => simp at hasKind
  | null | bool value | int value | float value => simp [isOfKind, kind, entry] at hasKind

theorem exists_node_of_element {node child : Element} {index : Nat} (free : node.listFree = true)
    (isChild : node.elements[index]? = some child) : ∃ elements, node = .node elements := by
  cases node with
  | node elements => exact ⟨elements, rfl⟩
  | list elements => cases free
  | null | bool value | int value | float value | text value => simp [elements] at isChild

/-- The order of reading comes to every node inside a tree without lists. -/
theorem mem_preorder_of_inside {rest : Path} {node target : Element} {number : Nat}
    (inside : node.Inside rest target) (path : Path) (free : node.listFree = true)
    (hasKind : target.isOfKind number = true) : (path ++ rest, target) ∈ node.preorder path := by
  induction inside generalizing path with
  | here node =>
      rw [List.append_nil]
      exact self_mem_preorder path node
  | @descend node child target index rest isChild inside ih =>
      have childFree := listFree_element free isChild
      have isNode : ∃ elements, child = .node elements := by
        cases inside with
        | here => exact exists_node_of_kind childFree hasKind
        | descend isNext _ => exact exists_node_of_element childFree isNext
      rcases isNode with ⟨elements, rfl⟩
      apply mem_preorder.mpr
      right
      refine ⟨_, mem_children.mpr ⟨index, elements, isChild, rfl⟩, ?_⟩
      have member := ih (path ++ [index + 1]) childFree hasKind
      rwa [List.append_assoc] at member

/-- A place below a node is one that its children lead to. -/
theorem mem_preorder_of_under {path place : Path} {node target : Element} {numbers : List Nat}
    (under : node.Under path place target) (free : node.listFree = true)
    (hasKind : target.isOfKindIn numbers = true) :
    (place, target) ∈ Agenda.preorder (node.children path) := by
  rcases List.any_eq_true.mp hasKind with ⟨number, _, isKind⟩
  rcases under with ⟨rest, nonempty, rfl, inside⟩
  have member := mem_preorder_of_inside inside path free isKind
  rw [Agenda.preorder_children] at member
  rcases List.mem_cons.mp member with isSelf | below
  · have same : path ++ rest = path := (Prod.mk.inj isSelf).1
    exact absurd (List.append_right_eq_self.mp same) nonempty
  · exact below

theorem listFree_of_mem_preorder {path : Path} {node : Element} {entry : Path × Element}
    (member : entry ∈ node.preorder path) (free : node.listFree = true) : entry.2.listFree = true := by
  induction path, node using induction_children with
  | below path node ih =>
      rcases mem_preorder.mp member with rfl | ⟨child, isChild, inChild⟩
      · exact free
      · apply ih child isChild inChild
        rcases mem_children.mp isChild with ⟨index, elements, isElement, rfl⟩
        exact listFree_element free isElement

/-- A node of a construct's kind is a construct. -/
theorem isConstruct_of_isOfKind {node : Element} {number : Nat}
    (isKind : node.isOfKind number = true) (reached : Kind.firstConstruct ≤ number) :
    node.isConstruct = .ok true := by
  rcases exists_kind isKind with ⟨kind, hasKind, isNumber⟩
  simp [isConstruct, hasKind, atLeast_of_isNumber isNumber, reached]

theorem isTerminal_of_isOfKind {node : Element} {kind : Nat} (isKind : node.isOfKind kind = true)
    (isLow : kind < Kind.firstConstruct) : node.isTerminal = true := by
  rw [isTerminal_iff]
  rcases exists_kind isKind with ⟨found, hasKind, isNumber⟩
  simp [isConstruct, hasKind, atLeast_of_isNumber isNumber, isLow]

end Element

/-- The nodes of an agenda are among those that it leads to. -/
theorem Agenda.sublist_preorder (agenda : Agenda) : agenda.Sublist agenda.preorder := by
  induction agenda with
  | nil => exact List.Sublist.refl []
  | cons entry pending ih =>
      rw [Agenda.preorder_cons, Agenda.preorder, List.flatMap_append]
      exact (ih.trans (List.sublist_append_right _ _)).cons_cons entry

namespace Grammar

variable {grammar : Grammar}

theorem firstConstruct_le_target (version : grammar ∈ versions) {number : Nat}
    (isTarget : number ∈ grammar.targets) : Kind.firstConstruct ≤ number := by
  rcases mem_versions.mp version with rfl | rfl | rfl <;>
    simp only [version3, version27, version26, List.mem_cons, List.not_mem_nil, or_false] at isTarget <;>
    simp only [Kind.firstConstruct] <;> omega

/-- The terminals that can hold a mark are names, dots and, in version 3, ellipses. -/
theorem markable_cases (version : grammar ∈ versions) {number : Nat}
    (canHold : number ∈ grammar.markable) :
    number = Kind.name ∨ number = Kind.dot ∨ number = Kind.ellipsis ∧ grammar = version3 := by
  rcases mem_versions.mp version with rfl | rfl | rfl <;>
    simp only [version3, version27, version26, List.mem_cons, List.not_mem_nil, or_false] at canHold
  · rcases canHold with rfl | rfl | rfl <;> simp
  · rcases canHold with rfl | rfl <;> simp
  · rcases canHold with rfl | rfl <;> simp

end Grammar

namespace State

variable {settings : Settings} {before after : State} {path : Path} {node : Element} {number : Int}

theorem forall_ne_of_unlabelled {state : State} (unlabelled : state.labelAt? path = none) :
    ∀ entry ∈ state.marks, entry.1 ≠ path := by
  intro entry member same
  have differs := List.lookup_eq_none_iff.mp unlabelled entry member
  simp [same] at differs

/-- A name and a dot use their mark up. -/
theorem Reads.unmarked (reads : Reads settings before path node number after)
    (canHold : node.isOfKind Kind.name = true ∨ node.isOfKind Kind.dot = true) :
    ∀ entry ∈ after.marks, entry.1 ≠ path := by
  have notOther := Element.not_isOfKind_of_canHold canHold
  have dropped : ∀ entry ∈ (before.dropMark path).marks, entry.1 ≠ path := by
    intro entry member
    simpa using (List.mem_filter.mp member).2
  cases held : before.labelAt? path with
  | none =>
      rcases reads.sameNotes with same | same
      · rw [same.marks]
        exact forall_ne_of_unlabelled held
      · rw [same.marks]
        exact dropped
  | some label =>
      cases reads with
      | dedent isDedent went => simp [notOther Kind.dedent (by decide) (by decide)] at isDedent
      | newline line opened isNewline turned =>
          simp [notOther Kind.newline (by decide) (by decide)] at isNewline
      | indent line middle opened isIndent turned went =>
          simp [notOther Kind.indent (by decide) (by decide)] at isIndent
      | finish line middle opened isEnd turned ended =>
          simp [notOther Kind.endMarker (by decide) (by decide)] at isEnd
      | marked line middle mark opened canHold held noEnd present turned added =>
          have early := before.turnTo_sameNotes line number node
          have late := (middle.dropMark path).addItem_sameNotes (.symbol (some mark) node.wording)
          rw [turned] at early
          rw [added] at late
          rw [((early.dropMark path).trans late).marks]
          exact dropped
      | written line middle items opened notDedent writes turned added =>
          cases writes with
          | quoted isString wanted found =>
              simp [notOther Kind.string (by decide) (by decide)] at isString
          | string isString unwanted present =>
              simp [notOther Kind.string (by decide) (by decide)] at isString
          | keyword isName unmarked reserved present => simp [unmarked] at held
          | name isName unmarked free present => simp [unmarked] at held
          | other notNewline notIndent notString notName unmarked notEnd present =>
              rcases canHold with isName | isDot
              · simp [notName] at isName
              · simp [unmarked isDot] at held

/-- No terminal notes anything. -/
theorem Reads.marks_subset (reads : Reads settings before path node number after) :
    ∀ entry ∈ after.marks, entry ∈ before.marks := by
  intro entry member
  rcases reads.sameNotes with same | same
  · rwa [same.marks] at member
  · rw [same.marks] at member
    exact (List.mem_filter.mp member).1

theorem Reads.awaited_eq (reads : Reads settings before path node number after) :
    after.awaited = before.awaited := by
  rcases reads.sameNotes with same | same
  · exact same.awaited
  · exact same.awaited

/-- An expression that is met is awaited no longer. -/
theorem visitConstruct_arrives (isExpression : node.constructIn settings.grammar = .expression)
    (visited : before.visitConstruct settings path node = ⟨after, none⟩) : path ∉ after.awaited := by
  unfold visitConstruct at visited
  cases hasKind : node.kind with
  | error fault =>
      simp only [Plan.construct, hasKind] at visited
      exact absurd visited (takeAll_fail _ _ _ _)
  | ok kind =>
      rw [Plan.construct_eq hasKind, isExpression] at visited
      simp only [Plan.ofConstruct, Plan.expression] at visited
      split at visited
      next =>
        simp only [takeAll, take, arrive] at visited
        split at visited
        next next arrived =>
          cases visited
          split at arrived
          next => cases arrived
          next =>
            cases arrived
            simp
        next => cases visited
      next unawaited =>
        cases visited
        simpa using unawaited

/-- A mark that is noted behind a visit is for a place below the node, or was noted before; and then
it is not for the node itself, unless that is an ellipsis. -/
theorem Passes.marked (version : settings.grammar ∈ Grammar.versions)
    (passes : before.Passes settings path node after) (notes : before.OnlyNotes)
    {entry : Path × Label} (member : entry ∈ after.marks) :
    (∃ terminal, terminal.isOfKindIn settings.grammar.markable = true ∧
        node.Under path entry.1 terminal) ∨
      entry ∈ before.marks ∧
        (entry.1 = path → node.isOfKindIn settings.grammar.markable = true →
          settings.grammar = .version3 ∧ node.isOfKind Kind.ellipsis = true) := by
  cases passes with
  | construct isConstruct visited =>
      have foresees := visitConstruct_foresees (Grammar.test_mem_targets version) before path node
      rw [visited] at foresees
      rcases foresees.marked entry member with old | ⟨_, foreseen⟩
      · right
        refine ⟨old, fun _ canHold => ?_⟩
        rcases List.any_eq_true.mp canHold with ⟨kind, inMarkable, isKind⟩
        have isTerminal : kind < Kind.firstConstruct := by
          rcases Grammar.markable_cases version inMarkable with rfl | rfl | ⟨rfl, _⟩ <;> decide
        rw [Element.not_isOfKind_of_isConstruct isConstruct kind isTerminal] at isKind
        cases isKind
      · exact Or.inl foreseen
  | terminal number isTerminal numbered visited =>
      have reads := visitTerminal_reads notes visited
      right
      refine ⟨reads.marks_subset entry member, fun isHere canHold => ?_⟩
      rcases List.any_eq_true.mp canHold with ⟨kind, inMarkable, isKind⟩
      rcases Grammar.markable_cases version inMarkable with rfl | rfl | ⟨rfl, isLatest⟩
      · exact absurd isHere (reads.unmarked (Or.inl isKind) entry member)
      · exact absurd isHere (reads.unmarked (Or.inr isKind) entry member)
      · exact ⟨isLatest, isKind⟩

/-- What is awaited behind a visit is a place below the node, or was awaited before; and then it is
not the node itself. -/
theorem Passes.awaiting (version : settings.grammar ∈ Grammar.versions)
    (passes : before.Passes settings path node after) (notes : before.OnlyNotes) {place : Path}
    (member : place ∈ after.awaited) :
    (∃ target, target.isOfKindIn settings.grammar.targets = true ∧ node.Under path place target) ∨
      place ∈ before.awaited ∧
        (place = path → node.isOfKindIn settings.grammar.targets = false) := by
  cases isTarget : node.isOfKindIn settings.grammar.targets with
  | false =>
      cases passes with
      | construct isConstruct visited =>
          have foresees := visitConstruct_foresees (Grammar.test_mem_targets version) before path node
          rw [visited] at foresees
          rcases foresees.awaited place member with old | foreseen
          · exact Or.inr ⟨old, fun _ => rfl⟩
          · exact Or.inl foreseen
      | terminal number isTerminal numbered visited =>
          rw [(visitTerminal_reads notes visited).awaited_eq] at member
          exact Or.inr ⟨member, fun _ => rfl⟩
  | true =>
      rcases List.any_eq_true.mp isTarget with ⟨kind, inTargets, isKind⟩
      have isConstruct := Element.isConstruct_of_isOfKind isKind
        (Grammar.firstConstruct_le_target version inTargets)
      cases passes with
      | construct _ visited =>
          have foresees := visitConstruct_foresees (Grammar.test_mem_targets version) before path node
          rw [visited] at foresees
          have isExpression : node.constructIn settings.grammar = .expression :=
            (Grammar.constructIn_of_isOfKind isKind).trans
              (Grammar.constructOf_target version inTargets)
          rcases foresees.awaited place member with old | foreseen
          · refine Or.inr ⟨old, ?_⟩
            rintro rfl
            exact absurd member (visitConstruct_arrives isExpression visited)
          · exact Or.inl foreseen
      | terminal number isTerminal numbered visited =>
          rw [isConstruct] at isTerminal
          cases isTerminal

end State

namespace Walk

/-- The stages of a walk through a tree: how far it has come, and the agenda that is left. -/
inductive Comes (settings : Settings) (tree : Element) : Walk → Agenda → Prop where
  | start : Comes settings tree {} [([], tree)]
  | visit {walk : Walk} {path : Path} {node : Element} {pending : Agenda}
      (comes : Comes settings tree walk ((path, node) :: pending))
      (sound : (walk.visit settings path node).fault = none) :
      Comes settings tree (walk.visit settings path node) (node.children path ++ pending)

/-- The places that a walk has visited, in order. -/
def passed (walk : Walk) : List Path :=
  walk.visits.toList.map Prod.fst

/-- A place that a walk has not visited and that its agenda leads to. -/
def Ahead (walk : Walk) (agenda : Agenda) (place : Path) : Prop :=
  place ∉ walk.passed ∧ ∃ entry ∈ agenda, ∃ node, (place, node) ∈ entry.2.preorder entry.1

variable {settings : Settings} {tree : Element} {walk : Walk} {agenda : Agenda}

/-- Working off the agenda of a stage leads to the last stage, unless there is a fault. -/
theorem comes_run (comes : Comes settings tree walk agenda)
    (complete : (run settings walk agenda).fault = none) :
    Comes settings tree (run settings walk agenda) [] := by
  fun_induction run settings walk agenda with
  | case1 walk => exact comes
  | case2 walk path node pending next faulty =>
      rw [complete] at faulty
      cases faulty
  | case3 walk path node pending next sound ih =>
      apply ih _ complete
      rw [Agenda.pushAll_eq]
      apply comes.visit
      simpa using sound

theorem comes_ofTree (complete : (ofTree settings tree).fault = none) :
    Comes settings tree (ofTree settings tree) [] :=
  comes_run Comes.start complete

/-- At every stage all notes are for nodes that the agenda leads to, but for the marks of ellipses
that have been passed; the places passed and those to come are the places of the tree. -/
structure Foresight (settings : Settings) (tree : Element) (walk : Walk) (agenda : Agenda) : Prop where
  places : walk.passed ++ agenda.preorder.map Prod.fst = (tree.preorder []).map Prod.fst
  inTree : ∀ entry ∈ agenda.preorder, entry ∈ tree.preorder []
  onlyNotes : walk.state.OnlyNotes
  marks : ∀ entry ∈ walk.state.marks,
    (∃ terminal, (entry.1, terminal) ∈ agenda.preorder ∧
        terminal.isOfKindIn settings.grammar.markable = true) ∨
      settings.grammar = .version3 ∧ entry.1 ∈ walk.passed ∧
        ∃ terminal, (entry.1, terminal) ∈ tree.preorder [] ∧
          terminal.isOfKind Kind.ellipsis = true
  awaited : ∀ place ∈ walk.state.awaited, ∃ target, (place, target) ∈ agenda.preorder ∧
    target.isOfKindIn settings.grammar.targets = true

theorem foresight_start : Foresight settings tree {} [([], tree)] := by
  refine ⟨by simp [Agenda.preorder, passed], by simp [Agenda.preorder], State.onlyNotes_empty, ?_, ?_⟩
  · intro entry member
    cases member
  · intro place member
    cases member

/-- What is noted when a node has been visited was noted before, or is for places below it. -/
theorem Foresight.visit {path : Path} {node : Element} {pending : Agenda}
    (version : settings.grammar ∈ Grammar.versions) (free : tree.listFree = true)
    (foresight : Foresight settings tree walk ((path, node) :: pending))
    (sound : (walk.visit settings path node).fault = none) :
    Foresight settings tree (walk.visit settings path node) (node.children path ++ pending) := by
  rcases visit_passes sound with ⟨passes, recorded⟩
  have order := Agenda.preorder_cons path node pending
  have inNode : (path, node) ∈ tree.preorder [] := by
    apply foresight.inTree
    rw [order]
    exact List.mem_cons_self
  have nodeFree := Element.listFree_of_mem_preorder inNode free
  have passedNow : (walk.visit settings path node).passed = walk.passed ++ [path] := by
    simp [passed, recorded]
  have below {entry : Path × Element} (member : entry ∈ Agenda.preorder (node.children path)) :
      entry ∈ Agenda.preorder (node.children path ++ pending) := by
    unfold Agenda.preorder at member ⊢
    rw [List.flatMap_append]
    exact List.mem_append_left _ member
  refine ⟨?_, ?_, passes.onlyNotes foresight.onlyNotes, ?_, ?_⟩
  · rw [← foresight.places, order, passedNow]
    simp
  · intro entry member
    apply foresight.inTree
    rw [order]
    exact List.mem_cons_of_mem _ member
  · intro entry member
    rcases passes.marked version foresight.onlyNotes member with
      ⟨terminal, canHold, under⟩ | ⟨old, unlessEllipsis⟩
    · left
      exact ⟨terminal, below (Element.mem_preorder_of_under under nodeFree canHold), canHold⟩
    · rcases foresight.marks entry old with ⟨terminal, toCome, canHold⟩ | ⟨isLatest, isPassed, spent⟩
      · rw [order] at toCome
        rcases List.mem_cons.mp toCome with isHere | later
        · cases isHere
          rcases unlessEllipsis rfl canHold with ⟨isLatest, isEllipsis⟩
          refine Or.inr ⟨isLatest, ?_, node, inNode, isEllipsis⟩
          simp [passedNow]
        · exact Or.inl ⟨terminal, later, canHold⟩
      · refine Or.inr ⟨isLatest, ?_, spent⟩
        rw [passedNow]
        exact List.mem_append_left _ isPassed
  · intro place member
    rcases passes.awaiting version foresight.onlyNotes member with
      ⟨target, isTarget, under⟩ | ⟨old, notHere⟩
    · exact ⟨target, below (Element.mem_preorder_of_under under nodeFree isTarget), isTarget⟩
    · rcases foresight.awaited place old with ⟨target, toCome, isTarget⟩
      rw [order] at toCome
      rcases List.mem_cons.mp toCome with isHere | later
      · cases isHere
        rw [notHere rfl] at isTarget
        cases isTarget
      · exact ⟨target, later, isTarget⟩

theorem Comes.foresight (version : settings.grammar ∈ Grammar.versions) (free : tree.listFree = true)
    (comes : Comes settings tree walk agenda) : Foresight settings tree walk agenda := by
  induction comes with
  | start => exact foresight_start
  | visit comes sound ih => exact ih.visit version free sound

/-- Each place of the tree is passed once, and what has been passed does not come again. -/
theorem Foresight.apart (foresight : Foresight settings tree walk agenda) :
    (walk.passed ++ agenda.preorder.map Prod.fst).Nodup := by
  rw [foresight.places]
  exact Element.preorder_nodup [] tree

theorem Foresight.ahead (foresight : Foresight settings tree walk agenda) {place : Path}
    {node : Element} (toCome : (place, node) ∈ agenda.preorder) : Ahead walk agenda place := by
  constructor
  · intro isPassed
    exact (List.nodup_append.mp foresight.apart).2.2 place isPassed place
      (List.mem_map_of_mem (f := Prod.fst) toCome) rfl
  · rcases List.mem_flatMap.mp toCome with ⟨entry, inAgenda, inEntry⟩
    exact ⟨entry, inAgenda, node, inEntry⟩

/-- Marks and awaited expressions are noted for nodes that are still to come.  At every stage of a
walk through a tree without lists, no place has been passed twice, everything awaited is ahead, and
so is everything marked but for ellipses that have been passed.  At the end nothing is awaited, and
only ellipses hold marks, which they do in version 3 alone. -/
theorem pending_ahead (settings : Settings) (version : settings.grammar ∈ Grammar.versions)
    (tree : Element) (free : tree.listFree = true) :
    (∀ walk agenda, Comes settings tree walk agenda →
      (walk.passed ++ agenda.map Prod.fst).Nodup ∧
      (∀ entry ∈ walk.state.marks, Ahead walk agenda entry.1 ∨
        settings.grammar = .version3 ∧ entry.1 ∈ walk.passed ∧
          ∃ terminal, (entry.1, terminal) ∈ tree.preorder [] ∧
            terminal.isOfKind Kind.ellipsis = true) ∧
      ∀ place ∈ walk.state.awaited, Ahead walk agenda place) ∧
    ((ofTree settings tree).fault = none →
      (ofTree settings tree).state.awaited = [] ∧
      (∀ entry ∈ (ofTree settings tree).state.marks, ∃ terminal,
        (entry.1, terminal) ∈ tree.preorder [] ∧ terminal.isOfKind Kind.ellipsis = true) ∧
      (settings.grammar ≠ .version3 → (ofTree settings tree).state.marks = [])) := by
  constructor
  · intro walk agenda comes
    have foresight := comes.foresight version free
    refine ⟨?_, ?_, ?_⟩
    · exact foresight.apart.sublist (((agenda.sublist_preorder).map Prod.fst).append_left _)
    · intro entry member
      rcases foresight.marks entry member with ⟨terminal, toCome, _⟩ | spent
      · exact Or.inl (foresight.ahead toCome)
      · exact Or.inr spent
    · intro place member
      rcases foresight.awaited place member with ⟨target, toCome, _⟩
      exact foresight.ahead toCome
  · intro complete
    have foresight := (comes_ofTree complete).foresight version free
    have nothing {entry : Path × Element} (toCome : entry ∈ Agenda.preorder []) : False := by
      cases toCome
    refine ⟨?_, ?_, ?_⟩
    · apply List.eq_nil_iff_forall_not_mem.mpr
      intro place member
      rcases foresight.awaited place member with ⟨target, toCome, _⟩
      exact nothing toCome
    · intro entry member
      rcases foresight.marks entry member with ⟨terminal, toCome, _⟩ | ⟨_, _, isEllipsis⟩
      · exact (nothing toCome).elim
      · exact isEllipsis
    · intro older
      apply List.eq_nil_iff_forall_not_mem.mpr
      intro entry member
      rcases foresight.marks entry member with ⟨terminal, toCome, _⟩ | ⟨isLatest, _⟩
      · exact nothing toCome
      · exact older isLatest

/-- The tree of an import from a module whose name ends in an ellipsis. -/
def importFromEllipsis : Element :=
  .node [.int 257,
    .node [.int 284, .node [.int 1, .text "from", .int 1],
      .node [.int 289, .node [.int 1, .text "a", .int 1], .node [.int 52, .text "...", .int 1]],
      .node [.int 1, .text "import", .int 1], .node [.int 1, .text "b", .int 1]],
    .node [.int 4, .text "", .int 1], .node [.int 0, .text "", .int 2]]

theorem pending_ahead_importFromEllipsis :
    Settings.grammar {} ∈ Grammar.versions ∧ importFromEllipsis.listFree = true ∧
      (ofTree {} importFromEllipsis).fault = none ∧
      (ofTree {} importFromEllipsis).state.awaited = [] ∧
      ∀ entry ∈ (ofTree {} importFromEllipsis).state.marks, ∃ terminal,
        (entry.1, terminal) ∈ importFromEllipsis.preorder [] ∧
          terminal.isOfKind Kind.ellipsis = true := by
  have version : Settings.grammar {} ∈ Grammar.versions := List.mem_cons_self
  have free : importFromEllipsis.listFree = true := by decide +kernel
  have complete : (ofTree {} importFromEllipsis).fault = none := by
    rw [ofTree_eq_visitEach]
    decide +kernel
  rcases (pending_ahead {} version importFromEllipsis free).2 complete with ⟨awaited, marks, _⟩
  exact ⟨version, free, complete, awaited, marks⟩

/-- An ellipsis keeps the mark of a module name when it has been passed, so not every mark is for a
node that is still to come. -/
theorem not_all_marks_ahead :
    importFromEllipsis.listFree = true ∧
      ¬ ∀ walk agenda, Comes {} importFromEllipsis walk agenda →
        ∀ entry ∈ walk.state.marks, Ahead walk agenda entry.1 := by
  refine ⟨by decide +kernel, ?_⟩
  intro allAhead
  have complete : (ofTree {} importFromEllipsis).fault = none := by
    rw [ofTree_eq_visitEach]
    decide +kernel
  have left : (ofTree {} importFromEllipsis).state.marks.map Prod.fst = [[1, 2, 2]] := by
    rw [ofTree_eq_visitEach]
    decide +kernel
  rcases List.map_eq_singleton_iff.mp left with ⟨entry, isMarks, _⟩
  have ahead := allAhead _ _ (comes_ofTree complete) entry (by simp [isMarks])
  rcases ahead.2 with ⟨_, inAgenda, _⟩
  cases inAgenda

end Walk

end CrossRef
