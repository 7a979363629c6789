import CrossRef.Proofs.Declarations
import CrossRef.Proofs.ImportStatements
import CrossRef.Proofs.Places
import CrossRef.Proofs.Primaries

/-!
# Clean walks

A walk of a well-shaped tree meets no fault, and nothing that it has noted on the way is left at its
end. The proof is an induction over the tree: each construct can be entered, the trees below it find
what they expect, and behind each of them nothing is left noted for places in it, while the notes
for all other places are untouched.
-/

namespace CrossRef

namespace State

variable {settings : Settings} {before after : State} {path : Path} {role : Tree.Role} {kind : Nat}
  {children : List Tree}

/-- Every construct but a dotted name and an import statement can be entered. -/
theorem enters_construct (expects : before.Expects path role (.branch kind children))
    (idle : before.Idle) (allSound : (Tree.branch kind children).AllSound)
    (notDotted : kind ≠ Tree.grammar.dottedName) (notImport : kind ≠ Tree.grammar.importName) :
    ∃ middle, before.takeAll .version3
        (Plan.ofConstruct .version3 before path (Tree.branch kind children).toElement
          (Grammar.version3.constructOf (.int kind))) = ⟨middle, none⟩ ∧
      before.Enters path kind children middle := by
  have sound := allSound.sound
  have same (notPower : kind ≠ Tree.grammar.power) (notTarget : kind ∉ Tree.grammar.targets) :
      before.Enters path kind children before := by
    refine expects.enters_same idle sound notDotted notPower ?_
    intro isAwaited
    rw [← List.append_nil path] at isAwaited
    rcases (expects.awaited [] isAwaited).under with ⟨_, isTarget⟩ | ⟨_, _, _, _, isPlace, _⟩
    · exact notTarget isTarget
    · cases isPlace
  cases sort : Grammar.version3.constructOf (.int kind) with
  | globalStatement =>
      cases Grammar.eq_of_constructOf sort rfl
      exact enters_globalStatement expects idle sound
  | functionDefinition =>
      cases Grammar.eq_of_constructOf sort rfl
      simp only [Plan.ofConstruct]
      split
      · exact enters_functionDefinition expects idle sound
      · exact ⟨before, rfl, same (by decide) (by decide)⟩
  | decorated =>
      cases Grammar.eq_of_constructOf sort rfl
      exact enters_decorated expects idle allSound
  | importFrom =>
      cases Grammar.eq_of_constructOf sort rfl
      exact enters_importFrom expects idle allSound
  | importName => exact absurd (Grammar.eq_of_constructOf sort rfl) notImport
  | importedNames =>
      -- No import is under way, so there is nothing to count.
      cases Grammar.eq_of_constructOf sort rfl
      refine ⟨before, ?_, same (by decide) (by decide)⟩
      simp [Plan.ofConstruct, Plan.importedNames, idle.importing, takeAll]
  | dottedName => exact absurd (Grammar.eq_of_constructOf sort rfl) notDotted
  | expressionStatement =>
      cases Grammar.eq_of_constructOf sort rfl
      exact enters_expressionStatement expects idle allSound
  | expression =>
      exact enters_expression (Grammar.mem_kinds_of_constructOf sort (by decide)) expects idle sound
  | classDefinition =>
      cases Grammar.eq_of_constructOf sort rfl
      exact enters_classDefinition expects idle sound
  | power =>
      cases Grammar.eq_of_constructOf sort rfl
      exact enters_power expects idle allSound
  | other =>
      refine ⟨before, rfl, same ?_ ?_⟩
      · rintro rfl
        cases sort
      · intro isTarget
        simp only [Grammar.version3, List.mem_cons, List.not_mem_nil, or_false] at isTarget
        rcases isTarget with rfl | rfl <;> cases sort

/-! ## Trees right below a construct -/

/-- What happens beside a tree does not change what it finds. -/
theorem Expects.beside {region : Path → Prop} {tree : Tree} (expects : before.Expects path role tree)
    (clears : Clears region before after) (outside : ∀ place, ¬ region (path ++ place))
    (calm : after.assigning = true → before.assigning = true) : after.Expects path role tree := by
  have label (place : Path) : after.labelAt? (path ++ place) = before.labelAt? (path ++ place) :=
    clears.labels _ (outside place)
  have isAwaited (place : Path) : path ++ place ∈ after.awaited ↔ path ++ place ∈ before.awaited :=
    clears.awaited _ (outside place)
  refine ⟨?_, ?_, ?_⟩
  · rcases expects.labels with onlyNames | ⟨parts, isDotted, marked, only⟩
    · left
      intro place labelled
      rw [label] at labelled
      exact onlyNames place labelled
    · refine Or.inr ⟨parts, isDotted, ?_, ?_⟩
      · intro index inside
        rw [label]
        exact marked index inside
      · intro place labelled
        rw [label] at labelled
        exact only place labelled
  · intro place member
    exact expects.awaited place ((isAwaited place).mp member)
  · intro assigning
    rcases expects.assigning (calm assigning) with ⟨noneAwaited, noStatement⟩
    refine ⟨?_, noStatement⟩
    intro place member
    exact noneAwaited place ((isAwaited place).mp member)

/-- The places in some trees right below a construct. -/
def PlacesFrom (path : Path) (position count : Nat) (place : Path) : Prop :=
  ∃ index rest, index < count ∧ place = path ++ (position + index) :: rest

theorem placesFrom_succ (path : Path) (position count : Nat) (place : Path) :
    path ++ [position] <+: place ∨ PlacesFrom path (position + 1) count place ↔
      PlacesFrom path position (count + 1) place := by
  constructor
  · rintro (⟨rest, rfl⟩ | ⟨index, rest, inside, rfl⟩)
    · exact ⟨0, rest, by omega, by simp⟩
    · exact ⟨index + 1, rest, by omega, by rw [Nat.add_right_comm, Nat.add_assoc]⟩
  · rintro ⟨index, rest, inside, rfl⟩
    cases index with
    | zero => exact Or.inl ⟨rest, by simp⟩
    | succ index => exact Or.inr ⟨index, rest, by omega, by rw [Nat.add_right_comm, Nat.add_assoc]⟩

/-- A walk goes through trees that stand side by side. -/
theorem walks_children (notDotted : kind ≠ Tree.grammar.dottedName) (path : Path)
    (next : Tree.Cursor) : ∀ (trees : List Tree) (position : Nat) (before : State)
    (cursor : Tree.Cursor), (∀ tree ∈ trees, Walkable settings tree) → before.OnlyNotes →
    before.Idle →
    (∀ index tree, trees[index]? = some tree →
      before.Expects (path ++ [position + index]) (Tree.roleIn kind (position + index)) tree) →
    before.LineFits cursor → cursor.steps (Tree.terminalsFrom kind position trees) = some next →
    ∃ after,
      Chains settings before (Element.preorderFrom path position (trees.map Tree.toElement)) after ∧
      Clears (PlacesFrom path position trees.length) before after ∧
      after.assigning = (before.assigning && !trees.any (Tree.holds Tree.grammar.power)) ∧
      after.Idle ∧ after.LineFits next
  | [], position, before, cursor, _, _, idle, _, fits, stepped => by
      cases stepped
      refine ⟨before, Chains.nil before, ?_, by simp, idle, fits⟩
      refine ⟨?_, fun _ _ => rfl, ?_, fun _ _ => Iff.rfl⟩
      · rintro place ⟨index, rest, inside, _⟩
        simp at inside
      · rintro place ⟨index, rest, inside, _⟩
        simp at inside
  | tree :: rest, position, before, cursor, walkable, notes, idle, expects, fits, stepped => by
      have notPart := Tree.roleIn_ne_part notDotted position
      rw [Tree.terminalsFrom, Tree.Cursor.steps_append] at stepped
      rcases Option.bind_eq_some_iff.mp stepped with ⟨behindTree, treeSteps, restSteps⟩
      rcases walkable tree List.mem_cons_self _ (path ++ [position]) before cursor behindTree notPart
        notes idle (expects 0 tree rfl) fits treeSteps with ⟨middle, treeChains, walked⟩
      have laterExpects : ∀ index later, rest[index]? = some later →
          middle.Expects (path ++ [position + 1 + index])
            (Tree.roleIn kind (position + 1 + index)) later := by
        intro index later isLater
        have found := expects (index + 1) later isLater
        have same : position + (index + 1) = position + 1 + index := by omega
        rw [same] at found
        refine found.beside walked.clears ?_ ?_
        · intro place
          exact Element.not_prefix_of_apart (by omega) (List.prefix_refl _) (List.prefix_append _ place)
        · intro assigning
          rw [walked.assigning] at assigning
          simp only [Bool.and_eq_true] at assigning
          exact assigning.1
      rcases walks_children notDotted path next rest (position + 1) middle behindTree
        (fun later member => walkable later (List.mem_cons_of_mem tree member))
        (treeChains.onlyNotes notes) walked.idle laterExpects walked.fits restSteps with
        ⟨after, restChains, clears, assigning, nowIdle, nowFits⟩
      refine ⟨after, ?_, (walked.clears.trans clears).congr (placesFrom_succ path position _), ?_,
        nowIdle, nowFits⟩
      · rw [List.map_cons, Tree.preorderFrom_cons]
        exact treeChains.append restChains
      · rw [assigning, walked.assigning, List.any_cons, Bool.not_or, Bool.and_assoc]

/-- A construct that can be entered can be walked through. -/
theorem walkable_construct (latest : settings.grammar = .version3)
    (allSound : (Tree.branch kind children).AllSound)
    (notDotted : kind ≠ Tree.grammar.dottedName) (notImport : kind ≠ Tree.grammar.importName)
    (each : ∀ child ∈ children, Walkable settings child) :
    Walkable settings (.branch kind children) := by
  intro role path before cursor next notPart notes idle expects fits stepped
  rcases enters_construct expects idle allSound notDotted notImport with ⟨middle, taken, enters⟩
  have passes := passes_branch latest allSound.sound taken
  have middleFits := fits_of_line fits (passes.line_of_branch allSound.sound)
  have middleExpects : ∀ index child, children[index]? = some child →
      middle.Expects (path ++ [1 + index]) (Tree.roleIn kind (1 + index)) child := by
    intro index child isChild
    rw [Nat.add_comm 1 index]
    exact enters.each index child isChild
  rcases walks_children notDotted path next children 1 middle cursor each (passes.onlyNotes notes)
    enters.idle middleExpects middleFits stepped with
    ⟨after, chains, clears, assigning, nowIdle, nowFits⟩
  have below {place : Path} (outside : ¬ PlacesFrom path 1 children.length (path ++ place)) :
      ¬ ∃ index rest, index < children.length ∧ place = (index + 1) :: rest := by
    rintro ⟨index, rest, inside, rfl⟩
    exact outside ⟨index, rest, inside, by rw [Nat.add_comm 1 index]⟩
  have beside {place : Path} (isBeside : ¬ path <+: place) :
      ¬ PlacesFrom path 1 children.length place := by
    rintro ⟨index, rest, _, rfl⟩
    exact isBeside (List.prefix_append path _)
  refine ⟨after, ?_, ⟨?_, ?_, ?_, ?_⟩, assigning.trans enters.assigning, nowIdle, nowFits⟩
  · rw [Tree.preorder_branch]
    exact .cons passes chains
  · rintro _ ⟨place, rfl⟩
    by_cases inside : PlacesFrom path 1 children.length (path ++ place)
    · exact clears.unlabelled _ inside
    · rw [clears.labels _ inside]
      apply Classical.byContradiction
      intro labelled
      exact below inside (enters.labels_below place labelled)
  · intro place isBeside
    rw [clears.labels _ (beside isBeside), enters.labels_beside _ isBeside]
  · rintro _ ⟨place, rfl⟩
    by_cases inside : PlacesFrom path 1 children.length (path ++ place)
    · exact clears.reached _ inside
    · rw [clears.awaited _ inside]
      intro isAwaited
      exact below inside (enters.awaited_below place isAwaited)
  · intro place isBeside
    rw [clears.awaited _ (beside isBeside), enters.awaited_beside _ isBeside]

/-- Every sound tree can be walked through. -/
theorem walkable_of_allSound (latest : settings.grammar = .version3) (tree : Tree) :
    tree.AllSound → Walkable settings tree := by
  induction tree using Tree.induction with
  | leaf kind text line =>
      intro allSound
      exact walkable_leaf latest allSound.sound
  | branch kind children ih =>
      intro allSound
      by_cases isDotted : kind = Tree.grammar.dottedName
      · subst isDotted
        exact walkable_dottedName latest allSound
      by_cases isImport : kind = Tree.grammar.importName
      · subst isImport
        exact walkable_importName latest allSound
      · exact walkable_construct latest allSound isDotted isImport fun child member =>
          ih child member (allSound.child member)

/-! ## Whole walks -/

/-- Nothing is left to do: no line is open, and nothing is noted for what is still to come. -/
structure Clean (state : State) : Prop where
  line : state.line = none
  marks : state.marks = []
  awaited : state.awaited = []
  importing : state.importing = false
  importHalves : state.importHalves.getD 0 = 0
  assigning : state.assigning = false

theorem marks_eq_nil {state : State} (unlabelled : ∀ place, state.labelAt? place = none) :
    state.marks = [] := by
  cases isMarks : state.marks with
  | nil => rfl
  | cons entry rest =>
      have found := unlabelled entry.1
      rw [labelAt?, isMarks] at found
      simp at found

theorem expects_empty (tree : Tree) : Expects {} [] .word tree := by
  refine ⟨Or.inl ?_, ?_, ?_⟩
  · intro place labelled
    exact absurd rfl labelled
  · intro place isAwaited
    cases isAwaited
  · intro assigning
    cases assigning

theorem fits_empty : LineFits {} (.on 1 false) := by
  refine ⟨_, rfl, rfl, ?_⟩
  intro _ mark name isLast
  cases isLast

end State

namespace Walk

/-- A walk of a well-shaped tree meets no fault and leaves nothing to do. -/
theorem ofTree_clean (settings : Settings) (latest : settings.grammar = .version3) (tree : Tree)
    (shaped : tree.WellShaped) :
    (ofTree settings tree.toElement).fault = none ∧ (ofTree settings tree.toElement).state.Clean := by
  have walkable := State.walkable_of_allSound latest tree shaped.sound
  rcases walkable .word [] {} (.on 1 false) .ended (by decide) State.onlyNotes_empty ⟨rfl, rfl⟩
    (State.expects_empty tree) State.fits_empty shaped.spaced with ⟨after, chains, walked⟩
  rcases ofTree_of_chains chains with ⟨noFault, isAfter⟩
  rw [isAfter]
  refine ⟨noFault, walked.fits, State.marks_eq_nil ?_, ?_, walked.idle.importing,
    walked.idle.halves, ?_⟩
  · intro place
    exact walked.clears.unlabelled place List.nil_prefix
  · apply List.eq_nil_iff_forall_not_mem.mpr
    intro place
    exact walked.clears.reached place List.nil_prefix
  · rw [walked.assigning]
    rfl

theorem ofTree_clean_importAndAssignment :
    let source : Tree := .branch 257 [
      .branch Tree.grammar.importName [
        .leaf Kind.name "import" 1,
        .branch Tree.grammar.importedNames [
          .branch Kind.importedName [
            .branch Tree.grammar.dottedName
              [.leaf Kind.name "os" 1, .leaf Kind.dot "." 1, .leaf Kind.name "path" 1]],
          .leaf Kind.comma "," 1,
          .branch Kind.importedName [
            .branch Tree.grammar.dottedName [.leaf Kind.name "sys" 1],
            .leaf Kind.name "as" 1, .leaf Kind.name "system" 1]]],
      .leaf Kind.newline "" 1,
      .branch Tree.grammar.expressionStatement [
        .branch Tree.grammar.targetList [
          .branch Tree.grammar.test [
            .branch Tree.grammar.power [.branch Tree.grammar.atom [.leaf Kind.name "root" 2]]]],
        .leaf Kind.equal "=" 2,
        .branch Tree.grammar.targetList [
          .branch Tree.grammar.test [
            .branch Tree.grammar.power [
              .branch Tree.grammar.atom [.leaf Kind.name "split" 2],
              .branch Tree.grammar.trailer
                [.leaf Kind.leftParenthesis "(" 2, .leaf Kind.rightParenthesis ")" 2]]]]],
      .leaf Kind.newline "" 2,
      .leaf Kind.endMarker "" 3]
    source.WellShaped ∧ (ofTree {} source.toElement).fault = none ∧
      (ofTree {} source.toElement).state.Clean := by
  intro source
  have shaped : source.WellShaped := ⟨by decide +kernel, by decide +kernel⟩
  exact ⟨shaped, ofTree_clean {} rfl source shaped⟩

end Walk

end CrossRef
