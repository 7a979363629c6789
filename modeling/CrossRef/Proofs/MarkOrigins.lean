import CrossRef.Proofs.MarkPlaces

/-!
# Where marks come from

Every mark that a walk holds was noted by a construct that has been passed, for a place that this
construct can mark.  When another construct wants to mark the same place, it lies on the way from the
first one to that place.  The ways lead through atoms, trailers and decorators, which mark nothing, and
through dotted names.  Hence two marks meet at one place only if a dotted name inside an import
statement belongs to a module or a decorator that has been marked already.
-/

namespace CrossRef

namespace Element

/-- A node of a tree whose place goes on from that of another one lies below it. -/
theorem mem_preorder_of_prefix {root path place : Path} {tree node other : Element}
    (isNode : (path, node) ∈ tree.preorder root) (isOther : (place, other) ∈ tree.preorder root)
    (goesOn : path <+: place) : (place, other) ∈ node.preorder path := by
  induction root, tree using induction_children with
  | below root tree ih =>
      rcases mem_preorder.mp isNode with isRoot | ⟨child, isChild, inChild⟩
      · cases isRoot
        exact isOther
      · rcases mem_children.mp isChild with ⟨index, elements, isElement, rfl⟩
        have below := prefix_of_mem_preorder inChild
        rcases mem_preorder.mp isOther with isRoot | ⟨second, isSecond, inSecond⟩
        · cases isRoot
          have short := (below.trans goesOn).length_le
          simp only [List.length_append, List.length_singleton] at short
          omega
        · rcases mem_children.mp isSecond with ⟨position, parts, isPart, rfl⟩
          by_cases same : index = position
          · subst same
            rw [isElement] at isPart
            cases isPart
            exact ih _ isChild inChild inSecond
          · exact absurd goesOn
              (not_prefix_of_apart (by omega) below (prefix_of_mem_preorder inSecond))

/-- The place of a node below another one tells the way to it. -/
theorem inside_of_mem_preorder {path place : Path} {node target : Element}
    (member : (place, target) ∈ node.preorder path) :
    ∃ way, place = path ++ way ∧ node.Inside way target := by
  induction path, node using induction_children with
  | below path node ih =>
      rcases mem_preorder.mp member with isNode | ⟨child, isChild, inChild⟩
      · cases isNode
        exact ⟨[], by simp, .here _⟩
      · rcases ih child isChild inChild with ⟨way, isPlace, inside⟩
        rcases mem_children.mp isChild with ⟨index, elements, isElement, rfl⟩
        exact ⟨(index + 1) :: way, by simp [isPlace], .descend isElement inside⟩

theorem Inside.exists_child {node target : Element} {first : Nat} {rest : Path}
    (inside : node.Inside (first :: rest) target) :
    ∃ child, node.elements[first]? = some child ∧ child.Inside rest target := by
  cases inside with
  | descend isChild inside => exact ⟨_, isChild, inside⟩

theorem Inside.eq {node target : Element} (inside : node.Inside [] target) : target = node := by
  cases inside
  rfl

theorem isOfKindIn_of_mem {node : Element} {number : Nat} {numbers : List Nat}
    (isKind : node.isOfKind number = true) (member : number ∈ numbers) :
    node.isOfKindIn numbers = true :=
  List.any_eq_true.mpr ⟨number, member, isKind⟩

/-- The ways to marked terminals lead through parts that mark nothing, and through dotted names. -/
theorem Labels.through {grammar : Grammar} {outer node : Element} {construct : Construct}
    {way rest : Path} (labels : outer.Labels grammar construct (way ++ rest))
    (inside : outer.Inside way node) (onTheWay : way ≠ []) (further : rest ≠ []) :
    node.isOfKindIn [grammar.atom, grammar.trailer, grammar.decorators, grammar.decorator] = true ∨
      node.isOfKind grammar.dottedName = true ∧ construct ∈ [.importFrom, .decorated] := by
  rcases rest with _ | ⟨last, rest⟩
  · exact absurd rfl further
  rcases way with _ | ⟨first, way⟩
  · exact absurd rfl onTheWay
  rcases inside.exists_child with ⟨child, isChild, inChild⟩
  rcases way with _ | ⟨second, way⟩
  · cases inChild.eq
    cases labels with
    | primary isPart isKind position =>
        rw [isChild] at isPart
        cases isPart
        rcases List.any_eq_true.mp isKind with ⟨number, member, isNumber⟩
        exact Or.inl (isOfKindIn_of_mem isNumber (List.mem_append_left _ member))
    | importedModule isDotted isKind position =>
        rw [isChild] at isDotted
        cases isDotted
        exact Or.inr ⟨isKind, by simp⟩
    | decorator isList listKind isDecorator decoratorKind isDotted dottedKind position =>
        rw [isChild] at isList
        cases isList
        exact Or.inl (isOfKindIn_of_mem listKind (by simp))
  · rcases inChild.exists_child with ⟨grandchild, isGrandchild, inGrandchild⟩
    -- Only the way to a decorator's name is that long.
    rcases way with _ | ⟨third, way⟩
    · cases labels with
      | decorator isList listKind isDecorator decoratorKind isDotted dottedKind position =>
          rw [isChild] at isList
          cases isList
          rw [isGrandchild] at isDecorator
          cases isDecorator
          cases inGrandchild.eq
          exact Or.inl (isOfKindIn_of_mem decoratorKind (by simp))
    · rcases inGrandchild.exists_child with ⟨dotted, isElement, inDotted⟩
      rcases way with _ | ⟨fourth, way⟩
      · cases labels with
        | decorator isList listKind isDecorator decoratorKind isDotted dottedKind position =>
            rw [isChild] at isList
            cases isList
            rw [isGrandchild] at isDecorator
            cases isDecorator
            rw [isElement] at isDotted
            cases isDotted
            cases inDotted.eq
            exact Or.inr ⟨dottedKind, by simp⟩
      · rcases way with _ | ⟨fifth, way⟩ <;> cases labels

end Element

namespace Grammar

variable {grammar : Grammar}

/-- The parts that the ways to marked terminals lead through are no constructs of interest. -/
theorem constructOf_part (version : grammar ∈ versions) {number : Nat}
    (isPart : number ∈ [grammar.atom, grammar.trailer, grammar.decorators, grammar.decorator]) :
    grammar.constructOf (.int number) = .other := by
  simp only [List.mem_cons, List.not_mem_nil, or_false] at isPart
  rcases mem_versions.mp version with rfl | rfl | rfl <;> rcases isPart with rfl | rfl | rfl | rfl <;> rfl

theorem constructOf_dottedName (version : grammar ∈ versions) :
    grammar.constructOf (.int grammar.dottedName) = .dottedName := by
  rcases mem_versions.mp version with rfl | rfl | rfl <;> rfl

end Grammar

namespace State

variable {grammar : Grammar} {before middle after : State} {plan : Plan} {place : Path}

theorem labelAt?_isSome {state : State} :
    (state.labelAt? place).isSome = true ↔ ∃ entry ∈ state.marks, entry.1 = place := by
  rw [labelAt?, List.lookup_isSome_iff]
  simp only [beq_iff_eq, @eq_comm _ place]

/-- A construct's step leaves the marks alone but for the one that it notes. -/
theorem take_marked {step : Step} (prepares : step.Prepares)
    (taken : before.take grammar step = ⟨after, none⟩) :
    ∀ entry ∈ after.marks, entry ∈ before.marks ∨ entry.1 ∈ step.marked?.toList := by
  intro entry member
  cases step with
  | mark place terminal mark =>
      simp only [take, setMark] at taken
      split at taken
      next => cases taken
      next =>
        split at taken
        next => cases taken
        next =>
          split at taken
          next =>
            cases taken
            rcases List.mem_append.mp member with old | new
            · exact Or.inl old
            · rw [List.mem_singleton.mp new]
              exact Or.inr (List.mem_singleton_self _)
          next => cases taken
  | demand verdict =>
      rcases verdict with fault | _ | _ <;> cases taken
      exact Or.inl member
  | await other =>
      simp only [take, await] at taken
      cases taken
      split at member <;> exact Or.inl member
  | arrive other =>
      simp only [take, arrive] at taken
      split at taken <;> cases taken
      exact Or.inl member
  | settle | openFunction | beginImport | countImports | finishImport =>
      cases taken
      exact Or.inl member
  | fail fault => cases taken
  | unmark | indent | dedent | turn | add | finish => exact prepares.elim

theorem isDoomed_of_take {step : Step} (taken : before.take grammar step = ⟨after, none⟩) :
    step.isDoomed = false := by
  cases step with
  | fail fault => cases taken
  | demand verdict =>
      rcases verdict with fault | _ | _ <;> cases taken
      rfl
  | _ => rfl

theorem takeAll_marked (prepares : plan.Consists Step.Prepares)
    (taken : before.takeAll grammar plan = ⟨after, none⟩) :
    ∀ entry ∈ after.marks, entry ∈ before.marks ∨ entry.1 ∈ plan.markPlaces := by
  induction plan generalizing before with
  | nil =>
      cases taken
      exact fun _ => Or.inl
  | cons step rest ih =>
      rw [Plan.consists_cons] at prepares
      rw [takeAll] at taken
      split at taken
      next next isNext =>
        intro entry member
        rw [Plan.markPlaces, if_neg (by simp [isDoomed_of_take isNext]), List.mem_append]
        rcases ih prepares.2 taken entry member with early | late
        · exact (take_marked prepares.1 isNext entry early).imp_right Or.inl
        · exact Or.inr (Or.inr late)
      next => cases taken

theorem isDoomed_of_takeAll (taken : before.takeAll grammar plan = ⟨after, none⟩) :
    plan.any Step.isDoomed = false := by
  induction plan generalizing before with
  | nil => rfl
  | cons step rest ih =>
      rw [takeAll] at taken
      split at taken
      next next isNext => simp [isDoomed_of_take isNext, ih taken]
      next => cases taken

/-- Taking a plan comes to a mark for a place that already has one. -/
def Clashes (grammar : Grammar) (state : State) (plan : Plan) (place : Path) : Prop :=
  ∃ early terminal mark late middle, plan = early ++ .mark place terminal mark :: late ∧
    state.takeAll grammar early = ⟨middle, none⟩ ∧ (middle.labelAt? place).isSome = true

/-- If a plan marks no place twice, a place where it meets another mark was marked before. -/
theorem Clashes.marked (clashes : before.Clashes grammar plan place)
    (prepares : plan.Consists Step.Prepares) (once : plan.markPlaces.Nodup) :
    place ∈ plan.markPlaces ∧ ∃ entry ∈ before.marks, entry.1 = place := by
  rcases clashes with ⟨early, terminal, mark, late, middle, rfl, taken, labelled⟩
  have places : Plan.markPlaces (early ++ .mark place terminal mark :: late) =
      Plan.markPlaces early ++ place :: Plan.markPlaces late := by
    rw [Plan.markPlaces_append, if_neg (by simp [isDoomed_of_takeAll taken])]
    rfl
  rw [places] at once ⊢
  refine ⟨List.mem_append_right _ List.mem_cons_self, ?_⟩
  rcases labelAt?_isSome.mp labelled with ⟨entry, member, rfl⟩
  rw [Plan.consists_append] at prepares
  rcases takeAll_marked prepares.1 taken entry member with old | inEarly
  · exact ⟨entry, old, rfl⟩
  · rw [List.nodup_middle, List.nodup_cons] at once
    exact absurd (List.mem_append_left _ inEarly) once.1

/-- The plan that the visit of a node carries out. -/
inductive Undertakes (settings : Settings) (state : State) (path : Path) (node : Element) :
    Plan → Prop where
  | construct (isConstruct : node.isConstruct = .ok true) :
      Undertakes settings state path node (Plan.construct settings.grammar state path node)
  | terminal (number : Int) (isTerminal : node.isConstruct = .ok false)
      (numbered : node.lineNumber = .ok number) :
      Undertakes settings state path node (Plan.terminal settings state path node number)

end State

theorem Agenda.mem_preorder_head {path : Path} {node : Element} {pending : Agenda}
    {entry : Path × Element} (member : entry ∈ node.preorder path) :
    entry ∈ Agenda.preorder ((path, node) :: pending) :=
  List.mem_flatMap.mpr ⟨(path, node), List.mem_cons_self, member⟩

namespace Walk

variable {settings : Settings} {tree : Element} {walk : Walk} {agenda : Agenda}

/-- The nodes passed and those that the agenda leads to are the nodes of the tree, in their order. -/
theorem Comes.order (comes : Comes settings tree walk agenda) :
    ∃ done, tree.preorder [] = done ++ agenda.preorder ∧ done.map Prod.fst = walk.passed := by
  induction comes with
  | start => exact ⟨[], by simp [Agenda.preorder], rfl⟩
  | @visit walk path node pending comes sound ih =>
      rcases ih with ⟨done, isOrder, isDone⟩
      refine ⟨done ++ [(path, node)], ?_, ?_⟩
      · rw [isOrder, Agenda.preorder_cons]
        simp
      · simp [isDone, passed, (visit_passes sound).2]

theorem Comes.mem_preorder (comes : Comes settings tree walk agenda) {entry : Path × Element}
    (toCome : entry ∈ agenda.preorder) : entry ∈ tree.preorder [] := by
  rcases comes.order with ⟨done, isOrder, _⟩
  rw [isOrder]
  exact List.mem_append_right done toCome

/-- What is to come has not been passed. -/
theorem Comes.not_passed (comes : Comes settings tree walk agenda) {entry : Path × Element}
    (toCome : entry ∈ agenda.preorder) : entry.1 ∉ walk.passed := by
  intro isPassed
  rcases comes.order with ⟨done, isOrder, isDone⟩
  have once := Element.preorder_nodup [] tree
  rw [isOrder, List.map_append, isDone, List.nodup_append] at once
  exact once.2.2 entry.1 isPassed entry.1 (List.mem_map_of_mem toCome) rfl

/-- Visits in the order of reading lead from stage to stage. -/
theorem Comes.visitEach {done rest : List (Path × Element)} (comes : Comes settings tree walk agenda)
    (isOrder : agenda.preorder = done ++ rest) (sound : (visitEach settings walk done).fault = none) :
    ∃ pending, Comes settings tree (visitEach settings walk done) pending ∧ pending.preorder = rest := by
  induction done generalizing walk agenda with
  | nil => exact ⟨agenda, comes, isOrder⟩
  | cons entry done ih =>
      rcases agenda with _ | ⟨⟨path, node⟩, pending⟩
      · cases isOrder
      · rw [Agenda.preorder_cons, List.cons_append, List.cons.injEq] at isOrder
        rcases isOrder with ⟨rfl, isOrder⟩
        rcases visitEach_cons sound with ⟨firstSound, same⟩
        rw [same] at sound ⊢
        exact ih (comes.visit firstSound) isOrder sound

theorem Comes.onlyNotes (comes : Comes settings tree walk agenda) : walk.state.OnlyNotes := by
  induction comes with
  | start => exact State.onlyNotes_empty
  | visit comes sound ih => exact (visit_passes sound).1.onlyNotes ih

/-- A construct of the tree that a walk has passed and that noted a mark for a place. -/
structure Origin (settings : Settings) (tree : Element) (walk : Walk) (place base : Path)
    (outer : Element) : Prop where
  isPassed : base ∈ walk.passed
  inTree : (base, outer) ∈ tree.preorder []
  marked : ∃ earlier pending, Comes settings tree earlier ((base, outer) :: pending) ∧
    (earlier.visit settings base outer).fault = none ∧
      place ∈ (Plan.construct settings.grammar earlier.state base outer).markPlaces

/-- Every mark that a walk holds has been noted by a construct that it has passed. -/
theorem Comes.exists_origin (comes : Comes settings tree walk agenda) :
    ∀ entry ∈ walk.state.marks, ∃ base outer, Origin settings tree walk entry.1 base outer := by
  induction comes with
  | start =>
      intro entry member
      cases member
  | @visit walk path node pending comes sound ih =>
      rcases visit_passes sound with ⟨passes, recorded⟩
      have passedNow : (walk.visit settings path node).passed = walk.passed ++ [path] := by
        simp [passed, recorded]
      have inherits {entry : Path × Label} (old : entry ∈ walk.state.marks) : ∃ base outer,
          Origin settings tree (walk.visit settings path node) entry.1 base outer := by
        rcases ih entry old with ⟨base, outer, origin⟩
        refine ⟨base, outer, ?_, origin.inTree, origin.marked⟩
        rw [passedNow]
        exact List.mem_append_left _ origin.isPassed
      intro entry member
      cases passes with
      | construct isConstruct visited =>
          have prepares := Plan.construct_prepares settings.grammar walk.state path node
          rcases State.takeAll_marked prepares visited entry member with old | new
          · exact inherits old
          · refine ⟨path, node, ?_, ?_, walk, pending, comes, sound, new⟩
            · rw [passedNow]
              exact List.mem_append_right _ (List.mem_singleton_self path)
            · exact comes.mem_preorder (Agenda.mem_preorder_head (Element.self_mem_preorder path node))
      | terminal number isTerminal numbered visited =>
          exact inherits ((State.visitTerminal_reads comes.onlyNotes visited).marks_subset entry member)

/-- A construct that has marked a place below the next node lies around that node, which stands on the
way to the place. -/
theorem Origin.around {path rest place base : Path} {node outer : Element} {pending : Agenda}
    (version : settings.grammar ∈ Grammar.versions)
    (comes : Comes settings tree walk ((path, node) :: pending))
    (origin : Origin settings tree walk place base outer) (below : place = path ++ rest) :
    ∃ way, way ≠ [] ∧ path = base ++ way ∧ outer.Inside way node ∧
      outer.Labels settings.grammar (outer.constructIn settings.grammar) (way ++ rest) := by
  have inTree := comes.mem_preorder (Agenda.mem_preorder_head (Element.self_mem_preorder path node))
  rcases origin.marked with ⟨earlier, _, _, _, isMarked⟩
  have marks := Plan.construct_marks (Grammar.test_mem_targets version) earlier.state base outer
  rcases (marks.within place isMarked).2 with ⟨way, isPlace, labels⟩
  -- What has been passed does not lie below what is to come.
  have notBelow : ¬ path <+: base := by
    intro goesOn
    have member := Element.mem_preorder_of_prefix inTree origin.inTree goesOn
    exact comes.not_passed (Agenda.mem_preorder_head member) origin.isPassed
  have goesOn : base <+: path := by
    rcases List.prefix_or_prefix_of_prefix (isPlace ▸ List.prefix_append base way)
      (below ▸ List.prefix_append path rest) with shorter | longer
    · exact shorter
    · exact absurd longer notBelow
  rcases Element.inside_of_mem_preorder (Element.mem_preorder_of_prefix origin.inTree inTree goesOn)
    with ⟨front, rfl, inside⟩
  refine ⟨front, ?_, rfl, inside, ?_⟩
  · rintro rfl
    exact notBelow (by simp)
  · rw [below, List.append_assoc] at isPlace
    rwa [List.append_cancel_left isPlace]

/-- If a place below the next node is marked, then that node is a part that marks nothing, or a dotted
name whose marks came from an import or from decorators around it. -/
theorem Comes.marked_below {path rest : Path} {node : Element} {pending : Agenda}
    (version : settings.grammar ∈ Grammar.versions)
    (comes : Comes settings tree walk ((path, node) :: pending)) {entry : Path × Label}
    (member : entry ∈ walk.state.marks) (below : entry.1 = path ++ rest) (further : rest ≠ []) :
    node.constructIn settings.grammar = .other ∨
      node.isOfKind settings.grammar.dottedName = true ∧
        ∃ base outer, Origin settings tree walk entry.1 base outer ∧ base <+: path ∧ base ≠ path ∧
          outer.constructIn settings.grammar ∈ [.importFrom, .decorated] := by
  rcases comes.exists_origin entry member with ⟨base, outer, origin⟩
  rcases origin.around version comes below with ⟨way, onTheWay, isPath, inside, labels⟩
  rcases labels.through inside onTheWay further with isPart | ⟨isDotted, isOuter⟩
  · rcases List.any_eq_true.mp isPart with ⟨number, isNumber, isKind⟩
    left
    rw [Grammar.constructIn_of_isOfKind isKind]
    exact Grammar.constructOf_part version isNumber
  · right
    refine ⟨isDotted, base, outer, origin, ?_, ?_, isOuter⟩
    · rw [isPath]
      exact List.prefix_append base way
    · intro same
      rw [same] at isPath
      exact onTheWay (List.append_right_eq_self.mp isPath.symm)

/-- Marks meet at one place only when a dotted name inside an import statement marks one of its
children, and an import or a decorated definition around it has marked that child before.  No construct,
be it a primary that is assigned to and called, marks a place twice by itself. -/
theorem clashes_in_imports (settings : Settings) (version : settings.grammar ∈ Grammar.versions)
    (tree : Element) :
    (∀ walk path node pending plan place, Comes settings tree walk ((path, node) :: pending) →
      walk.state.Undertakes settings path node plan →
      walk.state.Clashes settings.grammar plan place →
        node.isOfKind settings.grammar.dottedName = true ∧ walk.state.importing = true ∧
          (∃ index, place = path ++ [index + 1]) ∧
          ∃ base outer, Origin settings tree walk place base outer ∧ base <+: path ∧ base ≠ path ∧
            outer.constructIn settings.grammar ∈ [.importFrom, .decorated]) ∧
    ∀ state path node, (Plan.construct settings.grammar state path node).markPlaces.Nodup := by
  have marks := Plan.construct_marks (Grammar.test_mem_targets version)
  refine ⟨?_, fun state path node => (marks state path node).once⟩
  intro walk path node pending plan place comes undertakes clashes
  cases undertakes with
  | terminal number isTerminal numbered =>
      rcases clashes with ⟨early, terminal, mark, late, _, isPlan, _⟩
      have spells := Plan.spells_terminal settings walk.state path node number
      rw [isPlan] at spells
      exact (spells _ (List.mem_append_right _ List.mem_cons_self)).elim
  | construct isConstruct =>
      rcases clashes.marked (Plan.construct_prepares _ _ _ _) (marks walk.state path node).once with
        ⟨isMarked, entry, member, rfl⟩
      rcases (marks walk.state path node).within _ isMarked with ⟨onlyImporting, rest, below, labels⟩
      rcases comes.marked_below version member below labels.ne_nil with isPart | ⟨isDotted, around⟩
      · rw [isPart] at labels
        cases labels
      · have isName := (Grammar.constructIn_of_isOfKind isDotted).trans
          (Grammar.constructOf_dottedName version)
        rw [isName] at labels
        cases labels with
        | moduleName index => exact ⟨isDotted, onlyImporting isName, ⟨index, below⟩, around⟩

/-- The tree of the dotted name of a module. -/
def moduleA : Element :=
  .node [.int 289, .node [.int 1, .text "a", .int 1]]

/-- The tree of an import that has an import from a module in the place of a module. -/
def importInsideImport : Element :=
  .node [.int 283, .node [.int 1, .text "import", .int 1],
    .node [.int 288,
      .node [.int 284, .node [.int 1, .text "from", .int 1], moduleA,
        .node [.int 1, .text "import", .int 1], .node [.int 1, .text "b", .int 1]]]]

theorem clashes_in_imports_importInsideImport :
    Settings.grammar {} ∈ Grammar.versions ∧
      ∃ walk pending plan, Comes {} importInsideImport walk (([2, 1, 2], moduleA) :: pending) ∧
        walk.state.Undertakes {} [2, 1, 2] moduleA plan ∧
        walk.state.Clashes (Settings.grammar {}) plan [2, 1, 2, 1] ∧ walk.state.importing = true ∧
        ∃ base outer, Origin {} importInsideImport walk [2, 1, 2, 1] base outer ∧ base <+: [2, 1, 2] ∧
          base ≠ [2, 1, 2] ∧ outer.constructIn (Settings.grammar {}) ∈ [.importFrom, .decorated] := by
  have version : Settings.grammar {} ∈ Grammar.versions := List.mem_cons_self
  have begun : Comes {} importInsideImport {} [([], importInsideImport)] := .start
  have isOrder : Agenda.preorder [([], importInsideImport)] =
      (importInsideImport.preorder []).take 5 ++ (importInsideImport.preorder []).drop 5 := by
    rw [List.take_append_drop]
    rfl
  have sound : (visitEach {} {} ((importInsideImport.preorder []).take 5)).fault = none := by
    decide +kernel
  rcases begun.visitEach isOrder sound with ⟨_ | ⟨next, pending⟩, comes, isRest⟩
  · cases isRest
  · have isNext : next = ([2, 1, 2], moduleA) := by
      rw [Agenda.preorder_cons] at isRest
      exact (List.cons.inj isRest).1
    subst isNext
    have isConstruct : moduleA.isConstruct = .ok true := rfl
    have clashes : (visitEach {} {} ((importInsideImport.preorder []).take 5)).state.Clashes
        (Settings.grammar {}) (Plan.construct (Settings.grammar {})
          (visitEach {} {} ((importInsideImport.preorder []).take 5)).state [2, 1, 2] moduleA)
        [2, 1, 2, 1] :=
      ⟨[], _, _, _, _, rfl, rfl, rfl⟩
    rcases (clashes_in_imports {} version importInsideImport).1 _ _ _ _ _ _ comes
      (.construct isConstruct) clashes with ⟨_, importing, _, around⟩
    exact ⟨version, _, pending, _, comes, .construct isConstruct, clashes, importing, around⟩

end Walk

end CrossRef
