import CrossRef.Proofs.Expectations

/-!
# Entering assignments

An expression statement awaits the targets on its left, and an awaited expression starts the search
for what is assigned to.  The search cannot start twice: a target holds a primary, which ends it,
and no statement.
-/

namespace CrossRef

namespace State

open CrossRef.Tree (Awaits AwaitsBelow positioned)

variable {before : State} {path : Path} {role : Tree.Role} {kind : Nat} {children : List Tree}

theorem awaitMembers_cons (kinds : List Nat) (path : Path) (position : Nat) (tree : Tree)
    (rest : List (Nat × Element)) :
    Plan.awaitMembers kinds path ((position, tree.toElement) :: rest) =
      if tree.isOf Kind.comma then Plan.awaitMembers kinds path rest
      else if tree.isOneOf kinds then
        .await (path ++ [position]) :: Plan.awaitMembers kinds path rest
      else [] := by
  simp only [Plan.awaitMembers, Tree.kind_toElement]
  rfl

/-- Members of a list are awaited only if they are of a kind asked for. -/
theorem awaitMembers_notes (kinds : List Nat) (path : Path) : ∀ (trees : List Tree) (start : Nat),
    ∃ awaited, Plan.Notes path (Plan.awaitMembers kinds path (positioned start trees)) [] awaited ∧
      ∀ place ∈ awaited, ∃ index child, place = [start + index] ∧ trees[index]? = some child ∧
        child.isOneOf kinds = true
  | [], _ => ⟨[], .nil, by simp⟩
  | first :: rest, start => by
      rcases awaitMembers_notes kinds path rest (start + 1) with ⟨awaited, notes, members⟩
      have later : ∀ place ∈ awaited, ∃ index child, place = [start + index] ∧
          (first :: rest)[index]? = some child ∧ child.isOneOf kinds = true := by
        intro place member
        rcases members place member with ⟨index, child, isPlace, isChild, isKind⟩
        refine ⟨index + 1, child, ?_, isChild, isKind⟩
        rw [isPlace]
        congr 1
        omega
      rw [positioned, awaitMembers_cons]
      cases isComma : first.isOf Kind.comma with
      | true => exact ⟨awaited, notes, later⟩
      | false =>
          cases isKind : first.isOneOf kinds with
          | true =>
              refine ⟨[start] :: awaited, .await [start] notes, ?_⟩
              intro place member
              rcases List.mem_cons.mp member with rfl | inRest
              · exact ⟨0, first, rfl, rfl, isKind⟩
              · exact later place inRest
          | false => exact ⟨[], .nil, by simp⟩

/-- A list of targets awaits its members. -/
theorem targetList_notes {tree : Tree} (isList : tree.isOf Tree.grammar.targetList = true)
    (sound : tree.sound = true) (path : Path) :
    ∃ awaited, Plan.Notes path (Plan.targetList .version3 path tree.toElement) [] awaited ∧
      ∀ place ∈ awaited, Awaits tree place := by
  rcases Tree.exists_branch sound isList (by decide) with ⟨members, rfl⟩
  rcases awaitMembers_notes Tree.grammar.targets path members 1 with ⟨awaited, notes, places⟩
  refine ⟨awaited, ?_, ?_⟩
  · unfold Plan.targetList
    rw [Tree.kindIs_self, isList, Tree.numbered_branch, List.drop_zero]
    exact .demand notes
  · intro place member
    rcases places place member with ⟨index, child, rfl, isChild, isTarget⟩
    rw [Nat.add_comm 1 index]
    exact .descend (by decide) isChild (.here isTarget)

theorem targetChain_cons (path : Path) (position : Nat) (tree : Tree) (rest : List (Nat × Element)) :
    Plan.targetChain .version3 path ((position, tree.toElement) :: rest) =
      if tree.isOf Kind.equal then Plan.targetChain .version3 path rest
      else if tree.isOf Tree.grammar.targetList then
        Plan.targetList .version3 (path ++ [position]) tree.toElement ++
          Plan.targetChain .version3 path rest
      else [] := by
  simp only [Plan.targetChain, Tree.kind_toElement]
  rfl

theorem targetChain_notes (path : Path) : ∀ (trees : List Tree) (start : Nat),
    (∀ tree ∈ trees, tree.sound = true) →
    ∃ awaited, Plan.Notes path (Plan.targetChain .version3 path (positioned start trees)) [] awaited ∧
      ∀ place ∈ awaited, ∃ index child rest, place = (start + index) :: rest ∧
        trees[index]? = some child ∧ Awaits child rest
  | [], _, _ => ⟨[], .nil, by simp⟩
  | first :: rest, start, sound => by
      rcases targetChain_notes path rest (start + 1) fun tree member =>
        sound tree (List.mem_cons_of_mem first member) with ⟨awaited, notes, places⟩
      have later : ∀ place ∈ awaited, ∃ index child below, place = (start + index) :: below ∧
          (first :: rest)[index]? = some child ∧ Awaits child below := by
        intro place member
        rcases places place member with ⟨index, child, below, isPlace, isChild, awaits⟩
        refine ⟨index + 1, child, below, ?_, isChild, awaits⟩
        rw [isPlace]
        congr 1
        omega
      rw [positioned, targetChain_cons]
      cases isEqual : first.isOf Kind.equal with
      | true => exact ⟨awaited, notes, later⟩
      | false =>
          cases isList : first.isOf Tree.grammar.targetList with
          | true =>
              rcases targetList_notes isList (sound first List.mem_cons_self) (path ++ [start]) with
                ⟨listAwaited, listNotes, listPlaces⟩
              refine ⟨_, listNotes.rebase.append notes, ?_⟩
              intro place member
              rcases List.mem_append.mp member with inList | inRest
              · rcases List.mem_map.mp inList with ⟨inner, innerMember, rfl⟩
                exact ⟨0, first, inner, rfl, rfl, listPlaces inner innerMember⟩
              · exact later place inRest
          | false => exact ⟨[], .nil, by simp⟩

/-- An assignment that also reads its target awaits the test that the target is. -/
theorem augmentedTarget_notes {first : Tree} (rest : List Tree)
    (isList : first.isOf Tree.grammar.targetList = true) (sound : first.sound = true)
    (isTest : first.startsWithTest = true) (path : Path) :
    Plan.Notes path
        (Plan.augmentedTarget .version3 path
          (Tree.branch Tree.grammar.expressionStatement (first :: rest)).toElement) [] [[1, 1]] ∧
      Awaits first [1] := by
  rcases Tree.exists_branch sound isList (by decide) with ⟨members, rfl⟩
  match members, isTest with
  | target :: others, isTest =>
      have reachesTarget : Tree.Reaches (.branch Tree.grammar.expressionStatement
          (.branch Tree.grammar.targetList (target :: others) :: rest)) [1, 1] [1, 1] target :=
        Tree.reaches_through 0 rfl (Tree.reaches_child 0 rfl)
      have kind := reachesTarget.follow_kind
      have isTestKind : (Element.int target.kind).isNumber Grammar.version3.test = true := isTest
      constructor
      · unfold Plan.augmentedTarget
        simp only [List.cons_append, List.nil_append] at kind
        rw [kind]
        simp only [isTestKind, if_true]
        exact .await [1, 1] .nil
      · have isOfTest : target.isOf Tree.grammar.test = true := isTest
        have isTarget : target.isOneOf Tree.grammar.targets = true := by
          apply List.any_eq_true.mpr
          exact ⟨Tree.grammar.test, by decide, isOfTest⟩
        exact .descend (by decide) rfl (.here isTarget)

theorem augmentedAssignment_notes {first second value : Tree} (firstSound : first.sound = true)
    (isList : first.isOf Tree.grammar.targetList = true)
    (isAugmented : second.isOf Tree.grammar.augmentedAssignment = true)
    (isTest : first.startsWithTest = true)
    (isValue : value.isOneOf [Tree.grammar.testList, Tree.grammar.yieldExpression] = true)
    (path : Path) :
    ∃ awaited, Plan.Notes path
        (Plan.expressionStatement .version3 path
          (Tree.branch Tree.grammar.expressionStatement [first, second, value]).toElement)
        [] awaited ∧
      ∀ place ∈ awaited, AwaitsBelow [first, second, value] place := by
  have reachesFirst : Tree.Reaches
      (.branch Tree.grammar.expressionStatement [first, second, value]) [1] [1] first :=
    Tree.reaches_child 0 rfl
  have reachesSecond : Tree.Reaches
      (.branch Tree.grammar.expressionStatement [first, second, value]) [2] [2] second :=
    Tree.reaches_child 1 rfl
  have reachesValue : Tree.Reaches
      (.branch Tree.grammar.expressionStatement [first, second, value]) [3] [3] value :=
    Tree.reaches_child 2 rfl
  rcases augmentedTarget_notes [second, value] isList firstSound isTest path with ⟨notes, awaits⟩
  refine ⟨[[1, 1]], ?_, ?_⟩
  · unfold Plan.expressionStatement
    rw [Tree.length_elements, reachesFirst.kindIs, reachesSecond.kindIs, reachesValue.kindIn, isList,
      isAugmented, isValue]
    exact .demand notes
  · intro place member
    cases List.mem_singleton.mp member
    exact ⟨0, first, [1], rfl, rfl, awaits⟩

/-- A chain of assignments awaits the targets of every list but the last. -/
theorem assignmentChain_notes {first second : Tree} {rest : List Tree}
    (allSound : (Tree.branch Tree.grammar.expressionStatement (first :: second :: rest)).AllSound)
    (isList : first.isOf Tree.grammar.targetList = true) (isEqual : second.isOf Kind.equal = true)
    (nonempty : rest ≠ []) (path : Path) :
    ∃ awaited, Plan.Notes path
        (Plan.expressionStatement .version3 path
          (Tree.branch Tree.grammar.expressionStatement (first :: second :: rest)).toElement)
        [] awaited ∧
      ∀ place ∈ awaited, AwaitsBelow (first :: second :: rest) place := by
  have reachesFirst : Tree.Reaches
      (.branch Tree.grammar.expressionStatement (first :: second :: rest)) [1] [1] first :=
    Tree.reaches_child 0 rfl
  have reachesSecond : Tree.Reaches
      (.branch Tree.grammar.expressionStatement (first :: second :: rest)) [2] [2] second :=
    Tree.reaches_child 1 rfl
  have entry : (Tree.branch Tree.grammar.expressionStatement
      (first :: second :: rest)).toElement.entry 1 = .ok first.toElement := Tree.entry_child 0 rfl
  have notAugmented : second.isOf Grammar.version3.augmentedAssignment = false := by
    rw [Tree.isOf_iff] at isEqual
    simp [Tree.isOf, isEqual, Kind.equal, Grammar.version3]
  have long : ¬ (Tree.branch Tree.grammar.expressionStatement
      (first :: second :: rest)).size < 4 := by
    have positive := List.length_pos_iff.mpr nonempty
    simp only [Tree.size, List.length_cons]
    omega
  have chainSound : ∀ tree ∈ rest.dropLast, tree.sound = true := by
    intro tree member
    have inRest := (List.dropLast_sublist rest).subset member
    exact (allSound.child (List.mem_cons_of_mem _ (List.mem_cons_of_mem _ inRest))).sound
  rcases targetList_notes isList (allSound.child (by simp)).sound (path ++ [1]) with
    ⟨listAwaited, listNotes, listPlaces⟩
  rcases targetChain_notes path rest.dropLast 3 chainSound with
    ⟨chainAwaited, chainNotes, chainPlaces⟩
  refine ⟨listAwaited.map ([1] ++ ·) ++ chainAwaited, ?_, ?_⟩
  · unfold Plan.expressionStatement
    rw [Tree.length_elements, if_neg long, reachesFirst.kindIs, reachesSecond.kindIs,
      reachesSecond.kindIs, isList, notAugmented, isEqual, entry, Tree.numbered_branch,
      Tree.dropLast_positioned]
    exact .demand (listNotes.rebase.append chainNotes)
  · intro place member
    rcases List.mem_append.mp member with inList | inChain
    · rcases List.mem_map.mp inList with ⟨inner, innerMember, rfl⟩
      exact ⟨0, first, inner, rfl, rfl, listPlaces inner innerMember⟩
    · rcases chainPlaces place inChain with ⟨index, child, below, rfl, isChild, awaits⟩
      have inRest : rest[index]? = some child := by
        have bound := (List.getElem?_eq_some_iff.mp isChild).1
        rw [List.length_dropLast] at bound
        rwa [List.getElem?_dropLast, if_pos bound] at isChild
      exact ⟨index + 2, child, below, by rw [Nat.add_comm 3 index], inRest, awaits⟩

theorem enters_expressionStatement
    (expects : before.Expects path role (.branch Tree.grammar.expressionStatement children))
    (idle : before.Idle)
    (allSound : (Tree.branch Tree.grammar.expressionStatement children).AllSound) :
    ∃ after, before.takeAll .version3
        (Plan.expressionStatement .version3 path
          (Tree.branch Tree.grammar.expressionStatement children).toElement) = ⟨after, none⟩ ∧
      before.Enters path Tree.grammar.expressionStatement children after := by
  have production : Tree.assigns children = true := Tree.production_holds allSound.sound
  have noted : ∃ awaited, Plan.Notes path
        (Plan.expressionStatement .version3 path
          (Tree.branch Tree.grammar.expressionStatement children).toElement) [] awaited ∧
      ∀ place ∈ awaited, AwaitsBelow children place := by
    match children, production with
    | [only], _ => exact ⟨[], .nil, by simp⟩
    | first :: second :: rest, production =>
        simp only [Tree.assigns, Bool.and_eq_true, Bool.or_eq_true] at production
        rcases production with ⟨isList, ⟨⟨isAugmented, isTest⟩, isValue⟩ | ⟨isEqual, separates⟩⟩
        · match rest, isValue with
          | [value], isValue =>
              exact augmentedAssignment_notes (allSound.child (by simp)).sound isList isAugmented
                isTest isValue path
        · refine assignmentChain_notes allSound isList isEqual ?_ path
          rintro rfl
          cases separates
  rcases noted with ⟨awaited, notes, awaits⟩
  have calm : before.assigning = true → awaited = [] := by
    intro assigning
    have without := (expects.assigning assigning).2
    simp [Tree.holds_branch] at without
  exact expects.enters_notes allSound.sound (by decide) (by decide) (by decide)
    (starts_same idle (by decide) calm) notes (by simp) (by simp) awaits

theorem target_holds (isTarget : kind ∈ Tree.grammar.targets)
    (sound : (Tree.branch kind children).sound = true) :
    (Tree.branch kind children).holds Tree.grammar.power = true ∧
      (Tree.branch kind children).holds Tree.grammar.expressionStatement = false := by
  have contained : Tree.grammar.targets.contains kind = true := by simpa using isTarget
  simp only [Tree.sound, contained, Bool.not_true, Bool.false_or, Bool.and_eq_true,
    Bool.not_eq_true'] at sound
  exact sound.2

/-- An expression that can be awaited is none of the constructs that notes are made for otherwise. -/
theorem target_apart (isTarget : kind ∈ Tree.grammar.targets) :
    kind ∉ Tree.carriers ∧ kind ∉ Tree.awaiters ∧ kind ≠ Tree.grammar.power ∧
      kind ≠ Tree.grammar.dottedName := by
  simp only [Grammar.version3, List.mem_cons, List.not_mem_nil, or_false] at isTarget
  rcases isTarget with rfl | rfl <;> decide

/-- An expression that is awaited starts the search for what is assigned to. -/
theorem enters_expression (isTarget : kind ∈ Tree.grammar.targets)
    (expects : before.Expects path role (.branch kind children)) (idle : before.Idle)
    (sound : (Tree.branch kind children).sound = true) :
    ∃ after, before.takeAll .version3 (Plan.expression before path) = ⟨after, none⟩ ∧
      before.Enters path kind children after := by
  rcases target_apart isTarget with ⟨notCarrier, notAwaiter, notPower, notDotted⟩
  have unlabelled := expects.unlabelled sound notCarrier
  rcases target_holds isTarget sound with ⟨withPower, withoutStatement⟩
  unfold Plan.expression
  cases isAwaited : before.awaited.contains path with
  | false =>
      refine ⟨before, rfl, expects.enters_same idle sound notDotted notPower ?_⟩
      simpa using isAwaited
  | true =>
      have member : path ++ [] ∈ before.awaited := by simpa using isAwaited
      have notAssigning : before.assigning = false := by
        cases assigning : before.assigning with
        | false => rfl
        | true => exact absurd member ((expects.assigning assigning).1 [])
      let after : State :=
        { before with awaited := before.awaited.filter (· ≠ path), assigning := true }
      have noneAwaited (place : Path) : path ++ place ∉ after.awaited := by
        intro stillAwaited
        rcases List.mem_filter.mp stillAwaited with ⟨was, differs⟩
        rcases (expects.awaited place was).under with ⟨rfl, _⟩ | ⟨isAwaiter, _⟩
        · simp at differs
        · exact notAwaiter isAwaiter
      refine ⟨after, ?_, ?_, ?_, ?_, ?_, ?_, ?_, ⟨idle.importing, idle.halves⟩⟩
      · simp [takeAll, arrive, notAssigning, after]
      · intro other beside
        rfl
      · intro other beside
        simp only [after, List.mem_filter, decide_eq_true_eq, and_iff_left_iff_imp]
        rintro _ rfl
        exact beside (List.prefix_refl other)
      · intro place isLabelled
        exact absurd (unlabelled place) isLabelled
      · intro place stillAwaited
        exact absurd stillAwaited (noneAwaited place)
      · intro index child isChild
        refine ⟨Or.inl ?_, ?_, ?_⟩
        · intro place isLabelled
          rw [List.append_assoc] at isLabelled
          exact absurd (unlabelled _) isLabelled
        · intro place stillAwaited
          rw [List.append_assoc] at stillAwaited
          exact absurd stillAwaited (noneAwaited _)
        · intro _
          refine ⟨?_, holds_child withoutStatement isChild⟩
          intro place
          rw [List.append_assoc]
          exact noneAwaited _
      · have below : children.any (Tree.holds Tree.grammar.power) = true := by
          simpa [Tree.holds_branch, notPower] using withPower
        rw [below, notAssigning]
        simp

end State

end CrossRef
