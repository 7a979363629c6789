import CrossRef.Proofs.Expectations

/-!
# Entering declarations

Global statements, definitions of functions and classes, and decorated definitions can be entered if
they follow their productions: the names that they mark are where they look for them, and no name is
marked twice.
-/

namespace CrossRef

namespace State

open CrossRef.Tree (Holds HoldsBelow positioned)

variable {before : State} {path : Path} {role : Tree.Role} {kind : Nat} {children : List Tree}

/-- The names of a global statement stand at even positions and get a mark each. -/
theorem globalNames_notes (path : Path) : ∀ (trees : List Tree) (start : Nat), start % 2 = 0 →
    Tree.separated (Tree.isOf Kind.name) (Tree.isOf Kind.comma) trees = true →
    ∃ marks, Plan.Notes path
        (((positioned start trees).filter fun (position, _) => position % 2 = 0).flatMap
          fun (position, child) =>
            [.demand (child.kindIs [] Kind.name), .mark (path ++ [position]) child .globalName])
        marks [] ∧
      (marks.map Prod.fst).Nodup ∧
      ∀ place mark, (place, mark) ∈ marks → ∃ index child, place = [start + index] ∧
        (start + index) % 2 = 0 ∧ trees[index]? = some child ∧ child.isOf Kind.name = true
  | [], _, _, separates => by cases separates
  | [only], start, even, separates => by
      have isName : only.isOf Kind.name = true := separates
      refine ⟨[([start], .globalName)], ?_, by simp, ?_⟩
      · simp only [positioned, even, List.filter_cons, List.filter_nil, decide_true, if_true,
          List.flatMap_cons, List.flatMap_nil, List.append_nil, Tree.kindIs_self, isName]
        exact .demand (.mark [start] only .globalName (Tree.markable_of_isName isName) .nil)
      · intro place mark member
        cases List.mem_singleton.mp member
        exact ⟨0, only, rfl, even, rfl, isName⟩
  | first :: second :: rest, start, even, separates => by
      simp only [Tree.separated, Bool.and_eq_true] at separates
      rcases separates with ⟨⟨isName, _⟩, separatesRest⟩
      have odd : ¬ (start + 1) % 2 = 0 := by omega
      rcases globalNames_notes path rest (start + 1 + 1) (by omega) separatesRest with
        ⟨marks, notes, once, places⟩
      refine ⟨([start], .globalName) :: marks, ?_, ?_, ?_⟩
      · simp only [positioned, even, odd, List.filter_cons, decide_true, decide_false, if_true,
          Bool.false_eq_true, if_false, List.flatMap_cons, Tree.kindIs_self, isName]
        exact .demand (.mark [start] first .globalName (Tree.markable_of_isName isName) notes)
      · rw [List.map_cons, List.nodup_cons]
        refine ⟨?_, once⟩
        intro member
        rcases List.mem_map.mp member with ⟨⟨place, mark⟩, inMarks, same⟩
        rcases places place mark inMarks with ⟨index, child, isPlace, _⟩
        have equal : start = start + 1 + 1 + index := by
          simpa [isPlace] using same.symm
        omega
      · intro place mark member
        rcases List.mem_cons.mp member with isFirst | inMarks
        · cases isFirst
          exact ⟨0, first, rfl, even, rfl, isName⟩
        · rcases places place mark inMarks with ⟨index, child, isPlace, isEven, isChild, childIsName⟩
          refine ⟨index + 2, child, ?_, by omega, isChild, childIsName⟩
          rw [isPlace]
          congr 1
          omega

theorem enters_globalStatement
    (expects : before.Expects path role (.branch Tree.grammar.globalStatement children))
    (idle : before.Idle) (sound : (Tree.branch Tree.grammar.globalStatement children).sound = true) :
    ∃ after, before.takeAll .version3
        (Plan.globalStatement path (Tree.branch Tree.grammar.globalStatement children).toElement) =
        ⟨after, none⟩ ∧
      before.Enters path Tree.grammar.globalStatement children after := by
  have production : Tree.listsNames children = true := Tree.production_holds sound
  cases children with
  | nil => cases production
  | cons first rest =>
      simp only [Tree.listsNames, Bool.and_eq_true] at production
      rcases globalNames_notes path rest 2 rfl production.2 with ⟨marks, notes, once, places⟩
      unfold Plan.globalStatement
      rw [Tree.numbered_branch, List.drop_one, List.tail_cons]
      refine expects.enters_notes sound (by decide) (by decide) (by decide)
        (starts_same idle (by decide) fun _ => rfl) notes once ?_ (by simp)
      intro place mark member
      rcases places place mark member with ⟨index, child, isPlace, even, isChild, isName⟩
      refine ⟨index + 1, child, [], ?_, isChild, .here ?_ isName⟩
      · rw [isPlace]
        congr 1
        omega
      · have role : Tree.roleIn Tree.grammar.globalStatement (index + 1 + 1) = .name := by
          have isEven : (index + 1 + 1) % 2 = 0 := by omega
          simp [Tree.roleIn, Grammar.version3, isEven]
        simp [role]

/-- A word and a name behind it: the word is what it should be, and the name gets a mark. -/
theorem declares_notes {word : String} (kind : Nat) (declares : Tree.declares word children = true)
    (path : Path) (mark : Mark) :
    Plan.Notes path
        (.demand (Verdict.all
          [(Tree.branch kind children).toElement.kindIs [1] Kind.name,
           (Tree.branch kind children).toElement.asks [1, 1] (·.isText word)])
          :: Plan.markAt path (Tree.branch kind children).toElement [2] mark)
        [([2], mark)] [] ∧
      ∃ child, children[1]? = some child ∧ child.isOf Kind.name = true ∧
        (Tree.branch kind children).toElement.kindIs [1] Tree.grammar.decorators = .ok false := by
  match children, declares with
  | first :: second :: rest, declares =>
      simp only [Tree.declares, Bool.and_eq_true] at declares
      rcases declares with ⟨isWord, isName⟩
      cases first with
      | branch number trees => cases isWord
      | leaf number text line =>
          simp only [Tree.isWord, Bool.and_eq_true, decide_eq_true_eq] at isWord
          rcases isWord with ⟨rfl, rfl⟩
          have reachesWord : Tree.Reaches (.branch kind (.leaf Kind.name text line :: second :: rest))
              [1] [1] (.leaf Kind.name text line) := Tree.reaches_child 0 rfl
          have reachesName : Tree.Reaches (.branch kind (.leaf Kind.name text line :: second :: rest))
              [2] [2] second := Tree.reaches_child 1 rfl
          have isText : (Tree.branch kind (.leaf Kind.name text line :: second :: rest)).toElement.asks
              [1, 1] (·.isText text) = .ok true :=
            (reachesWord.asks_text _).trans (by simp [Element.isText])
          refine ⟨?_, second, rfl, isName, reachesWord.kindIs _⟩
          rw [reachesWord.kindIs, isText]
          exact .demand (Plan.markAt_notes reachesName (Tree.markable_of_isName isName) path mark)

theorem enters_declaration {plan : Plan} {word : String} {middle : State} (mark : Mark)
    (expects : before.Expects path role (.branch kind children))
    (sound : (Tree.branch kind children).sound = true)
    (isDeclaration : kind = Tree.grammar.functionDefinition ∨ kind = Tree.grammar.classDefinition)
    (declares : Tree.declares word children = true)
    (starts : Starts before kind children [] middle)
    (isPlan : plan = .demand (Verdict.all
        [(Tree.branch kind children).toElement.kindIs [1] Kind.name,
         (Tree.branch kind children).toElement.asks [1, 1] (·.isText word)])
        :: Plan.markAt path (Tree.branch kind children).toElement [2] mark) :
    ∃ after, middle.takeAll .version3 plan = ⟨after, none⟩ ∧
      before.Enters path kind children after := by
  rcases declares_notes kind declares path mark with ⟨notes, child, isChild, isName, _⟩
  rw [isPlan]
  refine expects.enters_notes sound ?_ ?_ ?_ starts notes (by simp) ?_ (by simp)
  · rcases isDeclaration with rfl | rfl <;> decide
  · rcases isDeclaration with rfl | rfl <;> decide
  · rcases isDeclaration with rfl | rfl <;> decide
  · intro place mark member
    cases List.mem_singleton.mp member
    have role : Tree.roleIn kind 2 = .name := by
      rcases isDeclaration with rfl | rfl <;> rfl
    exact ⟨1, child, [], rfl, isChild, .here (by simp [role]) isName⟩

theorem enters_functionDefinition
    (expects : before.Expects path role (.branch Tree.grammar.functionDefinition children))
    (idle : before.Idle)
    (sound : (Tree.branch Tree.grammar.functionDefinition children).sound = true) :
    ∃ after, before.takeAll .version3
        (Plan.functionDefinition .version3 path
          (Tree.branch Tree.grammar.functionDefinition children).toElement) = ⟨after, none⟩ ∧
      before.Enters path Tree.grammar.functionDefinition children after := by
  have declares : Tree.declares "def" children = true := Tree.production_holds sound
  rcases declares_notes Tree.grammar.functionDefinition declares path .definition with
    ⟨_, _, _, _, notDecorated⟩
  have starts : Starts before Tree.grammar.functionDefinition children []
      { before with functionLevel := before.indentation } :=
    ⟨rfl, rfl, fun assigning => ⟨assigning, rfl⟩, assigning_of_not_power (by decide) rfl,
      ⟨idle.importing, idle.halves⟩⟩
  have entered := enters_declaration .definition expects sound (Or.inl rfl) declares starts rfl
  unfold Plan.functionDefinition
  rw [notDecorated]
  exact entered

theorem enters_classDefinition
    (expects : before.Expects path role (.branch Tree.grammar.classDefinition children))
    (idle : before.Idle)
    (sound : (Tree.branch Tree.grammar.classDefinition children).sound = true) :
    ∃ after, before.takeAll .version3
        (Plan.classDefinition path
          (Tree.branch Tree.grammar.classDefinition children).toElement) = ⟨after, none⟩ ∧
      before.Enters path Tree.grammar.classDefinition children after := by
  have declares : Tree.declares "class" children = true := Tree.production_holds sound
  exact enters_declaration .classDefinition expects sound (Or.inr rfl) declares
    (starts_same idle (by decide) fun _ => rfl) rfl

/-- A dotted name of a decorator gets at most one mark, for its last part. -/
theorem decoratorName_notes {parts : List Tree}
    (allSound : (Tree.branch Tree.grammar.dottedName parts).AllSound) (path : Path) :
    ∃ marks, Plan.Notes path
        (Plan.decoratorName path (Tree.branch Tree.grammar.dottedName parts).toElement) marks [] ∧
      (marks.map Prod.fst).Nodup ∧
      ∀ place mark, (place, mark) ∈ marks →
        Holds .word (.branch Tree.grammar.dottedName parts) place := by
  have production : Tree.separated (Tree.isOf Kind.name) (Tree.isOf Kind.dot) parts = true :=
    Tree.production_holds allSound.sound
  rcases Tree.separated_last parts production with ⟨index, last, count, isLast, isName⟩
  have size : (Tree.branch Tree.grammar.dottedName parts).size = index + 1 + 1 := by
    simp [count]
  have reaches : Tree.Reaches (.branch Tree.grammar.dottedName parts) [-1] [index + 1] last :=
    Tree.reaches_back 1 Nat.one_pos count isLast
  have marked : Plan.Notes path
      (Plan.markAt path (Tree.branch Tree.grammar.dottedName parts).toElement [-1] .call)
      [([index + 1], .call)] [] :=
    Plan.markAt_notes reaches (Tree.markable_of_isName isName) path .call
  have holds : ∀ place mark, (place, mark) ∈ [([index + 1], Mark.call)] →
      Holds .word (.branch Tree.grammar.dottedName parts) place := by
    intro place mark member
    cases List.mem_singleton.mp member
    refine .descend (by decide) isLast (.here ?_ isName)
    unfold Tree.roleIn
    rw [if_pos rfl]
    split <;> simp
  have lastSound : last.AllSound := allSound.child (List.mem_of_getElem? isLast)
  rcases Tree.exists_leaf lastSound.sound isName (by decide) with ⟨text, line, rfl⟩
  have asks (question : Element → Bool) :
      (Tree.branch Tree.grammar.dottedName parts).toElement.asks [-1, 1] question =
        .ok (question (.text text)) := reaches.asks_text question
  unfold Plan.decoratorName
  rw [Tree.length_toElement, size]
  simp only
  rw [if_neg (by omega)]
  split
  · exact ⟨_, marked, by simp, holds⟩
  · rw [reaches.kindIs, isName, asks]
    cases Plan.plainDecorators.any ((Element.text text).isText ·) with
    | true => exact ⟨[], .demand .nil, by simp, by simp⟩
    | false => exact ⟨_, .demand marked, by simp, holds⟩

theorem decorator_notes {tree : Tree} (isDecorator : tree.isOf Tree.grammar.decorator = true)
    (allSound : tree.AllSound) (path : Path) :
    ∃ marks, Plan.Notes path (Plan.decorator .version3 path tree.toElement) marks [] ∧
      (marks.map Prod.fst).Nodup ∧
      ∀ place mark, (place, mark) ∈ marks → Holds .word tree place := by
  rcases Tree.exists_branch allSound.sound isDecorator (by decide) with ⟨trees, rfl⟩
  have production : Tree.production Tree.grammar.decorator trees = true :=
    Tree.production_holds allSound.sound
  match trees, production with
  | first :: second :: rest, production =>
      have kinds : first.isOf Kind.atSign = true ∧ second.isOf Tree.grammar.dottedName = true := by
        have both : (first.isOf Kind.atSign && second.isOf Tree.grammar.dottedName) = true := production
        simpa using both
      have reachesSign : Tree.Reaches (.branch Tree.grammar.decorator (first :: second :: rest))
          [1] [1] first := Tree.reaches_child 0 rfl
      have reachesDotted : Tree.Reaches (.branch Tree.grammar.decorator (first :: second :: rest))
          [2] [2] second := Tree.reaches_child 1 rfl
      have dottedSound : second.AllSound := allSound.child (by simp)
      rcases Tree.exists_branch dottedSound.sound kinds.2 (by decide) with ⟨parts, rfl⟩
      rcases decoratorName_notes dottedSound (path ++ [2]) with ⟨marks, notes, once, holds⟩
      have entry : (Tree.branch Tree.grammar.decorator
          (first :: .branch Tree.grammar.dottedName parts :: rest)).toElement.entry 2 =
          .ok (Tree.branch Tree.grammar.dottedName parts).toElement := Tree.entry_child 1 rfl
      refine ⟨marks.map fun entry => ([2] ++ entry.1, entry.2), ?_, ?_, ?_⟩
      · unfold Plan.decorator
        rw [Tree.kindIs_self, isDecorator, reachesSign.kindIs, reachesDotted.kindIs, kinds.1, kinds.2,
          entry]
        exact .demand (.demand (.demand notes.rebase))
      · exact Plan.nodup_rebase [2] once
      · intro place mark member
        rcases List.mem_map.mp member with ⟨⟨inner, noted⟩, inMarks, same⟩
        cases same
        exact .descend (by decide) rfl (holds inner noted inMarks)

/-- Each decorator gets at most one mark. -/
theorem decorators_notes (path : Path) : ∀ (trees : List Tree) (start : Nat),
    (∀ tree ∈ trees, tree.isOf Tree.grammar.decorator = true ∧ tree.AllSound) →
    ∃ marks, Plan.Notes path
        ((positioned start trees).flatMap fun (position, child) =>
          Plan.decorator .version3 (path ++ [position]) child) marks [] ∧
      (marks.map Prod.fst).Nodup ∧
      ∀ place mark, (place, mark) ∈ marks → ∃ index child rest, place = (start + index) :: rest ∧
        trees[index]? = some child ∧ Holds .word child rest
  | [], _, _ => ⟨[], .nil, by simp, by simp⟩
  | first :: rest, start, each => by
      rcases each first List.mem_cons_self with ⟨isDecorator, allSound⟩
      rcases decorator_notes isDecorator allSound (path ++ [start]) with
        ⟨firstMarks, firstNotes, firstOnce, firstHolds⟩
      rcases decorators_notes path rest (start + 1) fun tree member =>
        each tree (List.mem_cons_of_mem first member) with ⟨marks, notes, once, holds⟩
      refine ⟨_, firstNotes.rebase.append notes, ?_, ?_⟩
      · apply Plan.nodup_append (Plan.nodup_rebase [start] firstOnce) once
        intro place mark other noted member otherMember same
        rcases List.mem_map.mp member with ⟨entry, _, isEntry⟩
        rcases holds other noted otherMember with ⟨index, _, below, isPlace, _⟩
        cases isEntry
        have heads : start = start + 1 + index := by
          simp only [isPlace, List.singleton_append, List.cons.injEq] at same
          exact same.1
        omega
      · intro place mark member
        rcases List.mem_append.mp member with inFirst | inRest
        · rcases List.mem_map.mp inFirst with ⟨⟨inner, noted⟩, inMarks, same⟩
          cases same
          exact ⟨0, first, inner, rfl, rfl, firstHolds inner noted inMarks⟩
        · rcases holds place mark inRest with ⟨index, child, below, isPlace, isChild, holdsThere⟩
          refine ⟨index + 1, child, below, ?_, isChild, holdsThere⟩
          rw [isPlace]
          congr 1
          omega

theorem enters_decorated
    (expects : before.Expects path role (.branch Tree.grammar.decorated children))
    (idle : before.Idle) (allSound : (Tree.branch Tree.grammar.decorated children).AllSound) :
    ∃ after, before.takeAll .version3
        (Plan.decorated .version3 path (Tree.branch Tree.grammar.decorated children).toElement) =
        ⟨after, none⟩ ∧
      before.Enters path Tree.grammar.decorated children after := by
  have production : Tree.production Tree.grammar.decorated children = true :=
    Tree.production_holds allSound.sound
  match children, production with
  | [first, second], production =>
      have kinds : first.isOf Tree.grammar.decorators = true ∧
          second.isOneOf [Tree.grammar.functionDefinition, Tree.grammar.classDefinition] = true := by
        have both : (first.isOf Tree.grammar.decorators &&
            second.isOneOf [Tree.grammar.functionDefinition, Tree.grammar.classDefinition]) = true :=
          production
        simpa using both
      have reachesFirst : Tree.Reaches (.branch Tree.grammar.decorated [first, second]) [1] [1] first :=
        Tree.reaches_child 0 rfl
      have reachesSecond :
          Tree.Reaches (.branch Tree.grammar.decorated [first, second]) [2] [2] second :=
        Tree.reaches_child 1 rfl
      have firstSound : first.AllSound := allSound.child (by simp)
      rcases Tree.exists_branch firstSound.sound kinds.1 (by decide) with ⟨trees, rfl⟩
      have starts : Starts before Tree.grammar.decorated [.branch Tree.grammar.decorators trees, second]
          [] before := starts_same idle (by decide) fun _ => rfl
      unfold Plan.decorated
      rw [reachesFirst.kindIs, reachesSecond.kindIs, kinds.1]
      cases isFunction : second.isOf Grammar.version3.functionDefinition with
      | false =>
          exact expects.enters_notes allSound.sound (by decide) (by decide) (by decide) starts .nil
            (by simp) (by simp) (by simp)
      | true =>
          have listed : (!trees.isEmpty && trees.all (Tree.isOf Tree.grammar.decorator)) = true :=
            Tree.production_holds firstSound.sound
          simp only [Bool.and_eq_true, List.all_eq_true] at listed
          rcases decorators_notes (path ++ [1]) trees 1 fun tree member =>
            ⟨listed.2 tree member, firstSound.child member⟩ with ⟨marks, notes, once, holds⟩
          have entry : (Tree.branch Tree.grammar.decorated
              [.branch Tree.grammar.decorators trees, second]).toElement.entry 1 =
              .ok (Tree.branch Tree.grammar.decorators trees).toElement := Tree.entry_child 0 rfl
          rw [entry]
          simp only [Tree.numbered_branch, List.drop_zero, Plan.branch, Verdict.all, Verdict.and]
          have plan : ((positioned 1 trees).flatMap fun (position, child) =>
                Plan.decorator .version3 (path ++ [1, position]) child) =
              (positioned 1 trees).flatMap fun (position, child) =>
                Plan.decorator .version3 (path ++ [1] ++ [position]) child := by
            simp
          have rebased := notes.rebase
          rw [← plan] at rebased
          refine expects.enters_notes allSound.sound (by decide) (by decide) (by decide) starts rebased
            ?_ ?_ (by simp)
          · exact Plan.nodup_rebase [1] once
          · intro place mark member
            rcases List.mem_map.mp member with ⟨⟨inner, noted⟩, inMarks, same⟩
            cases same
            rcases holds inner noted inMarks with ⟨index, child, rest, isPlace, isChild, below⟩
            refine ⟨0, _, inner, rfl, rfl, ?_⟩
            rw [isPlace, Nat.add_comm 1 index]
            exact .descend (by decide) isChild below

end State

end CrossRef
