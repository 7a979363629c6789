import CrossRef.Proofs.Imports
import CrossRef.Proofs.Walkable

/-!
# Walks through import statements

An import statement counts its modules, and each dotted name in it takes one off, so the count is
used up with the last module and the statement is over.  On the way each module finds its own marks
and no others.
-/

namespace CrossRef

namespace Tree

/-- A module in an import statement, and behind it the words that give it another name. -/
theorem importedName_cases {children : List Tree}
    (sound : (branch Kind.importedName children).sound = true) :
    ∃ dotted words, children = dotted :: words ∧ dotted.isOf grammar.dottedName = true ∧
      ∀ word ∈ words, word.isOf Kind.name = true := by
  have production : production Kind.importedName children = true := production_holds sound
  match children, production with
  | [dotted], isDotted =>
      exact ⟨dotted, [], rfl, isDotted, by simp⟩
  | [dotted, word, name], renamed =>
      have parts : ((dotted.isOf grammar.dottedName && word.isOf Kind.name) &&
          name.isOf Kind.name) = true := renamed
      simp only [Bool.and_eq_true] at parts
      exact ⟨dotted, [word, name], rfl, parts.1.1, by simp [parts.1.2, parts.2]⟩

theorem importName_cases {children : List Tree}
    (allSound : (branch grammar.importName children).AllSound) :
    ∃ word names, children = [word, branch grammar.importedNames names] ∧
      word.isOf Kind.name = true := by
  have production : production grammar.importName children = true := production_holds allSound.sound
  match children, production with
  | [word, list], isImport =>
      have parts : (word.isOf Kind.name && list.isOf grammar.importedNames) = true := isImport
      simp only [Bool.and_eq_true] at parts
      rcases exists_branch (allSound.child (by simp)).sound parts.2 (by decide) with ⟨names, rfl⟩
      exact ⟨word, names, rfl, parts.1⟩

end Tree

namespace State

variable {settings : Settings} {before middle after kept : State} {path : Path} {role : Tree.Role}
  {cursor next : Tree.Cursor}

/-! ## Walks that leave nothing behind -/

/-- All notes are the same. -/
def Untouched (before after : State) : Prop :=
  Uses (fun _ => False) before after

theorem Untouched.trans (first : Untouched before middle) (second : Untouched middle after) :
    Untouched before after :=
  (Uses.trans first second).congr (by simp)

theorem Untouched.labelAt? (untouched : Untouched before after) (place : Path) :
    after.labelAt? place = before.labelAt? place :=
  untouched.labels place (by simp)

theorem Uses.untouched {region : Path → Prop} (uses : Uses region before after)
    (unlabelled : ∀ place, region place → before.labelAt? place = none) :
    Untouched before after := by
  refine ⟨by simp, ?_, uses.awaited, uses.importHalves, uses.importing, uses.assigning⟩
  intro place _
  by_cases inside : region place
  · rw [uses.unlabelled place inside, unlabelled place inside]
  · exact uses.labels place inside

/-- A walk goes through some elements, and the notes at its end are those of the given state. -/
def Keeps (settings : Settings) (before : State) (elements : List (Path × Element)) (kept : State)
    (next : Tree.Cursor) : Prop :=
  ∃ after, Chains settings before elements after ∧ Untouched kept after ∧ after.LineFits next

theorem Passes.keeps {element : Element} {elements : List (Path × Element)}
    (passes : before.Passes settings path element middle)
    (keeps : Keeps settings middle elements kept next) :
    Keeps settings before ((path, element) :: elements) kept next := by
  rcases keeps with ⟨after, chains, untouched, fits⟩
  exact ⟨after, .cons passes chains, untouched, fits⟩

theorem Keeps.append {elements more : List (Path × Element)} {final : State}
    (keeps : Keeps settings before elements kept cursor) (notes : before.OnlyNotes)
    (goesOn : ∀ middle, middle.OnlyNotes → Untouched kept middle → middle.LineFits cursor →
      ∃ last, Untouched final last ∧ Keeps settings middle more last next) :
    Keeps settings before (elements ++ more) final next := by
  rcases keeps with ⟨middle, chains, untouched, fits⟩
  rcases goesOn middle (chains.onlyNotes notes) untouched fits with
    ⟨last, sameLast, after, moreChains, sameAfter, nowFits⟩
  exact ⟨after, chains.append moreChains, sameLast.trans sameAfter, nowFits⟩

/-- A terminal without a mark leaves all notes as they are, also during an import. -/
theorem keeps_terminal (latest : settings.grammar = .version3) {tree : Tree} {number : Nat}
    (sound : tree.sound = true) (isKind : tree.isOf number = true)
    (isTerminal : number < Kind.firstConstruct) (notPart : role ≠ .part) (notes : before.OnlyNotes)
    (unlabelled : before.labelAt? path = none) (fits : before.LineFits cursor)
    (stepped : cursor.steps (tree.terminals role) = some next) :
    Keeps settings before (tree.toElement.preorder path) before next := by
  rcases Tree.exists_leaf sound isKind isTerminal with ⟨text, line, rfl⟩
  have step : cursor.step ⟨role, number, text, line⟩ = some next := by
    simpa [Tree.terminals, Tree.Cursor.steps] using stepped
  rcases canRead_leaf latest sound notPart notes fits step (fun held => absurd unlabelled held) with
    ⟨after, passes, same, nowFits⟩
  refine ⟨after, ?_, same.uses.untouched ?_, nowFits⟩
  · rw [Tree.preorder_leaf]
    exact .cons passes (Chains.nil after)
  · rintro place rfl
    exact unlabelled

theorem keeps_words (latest : settings.grammar = .version3) {kind : Nat}
    (onlyWords : ∀ position, Tree.roleIn kind position = .word) (path : Path) (next : Tree.Cursor) :
    ∀ (words : List Tree) (position : Nat) (before : State) (cursor : Tree.Cursor),
    (∀ word ∈ words, word.sound = true ∧ word.isOf Kind.name = true) → before.OnlyNotes →
    (∀ place, before.labelAt? (path ++ place) = none) → before.LineFits cursor →
    cursor.steps (Tree.terminalsFrom kind position words) = some next →
    Keeps settings before (Element.preorderFrom path position (words.map Tree.toElement)) before next
  | [], position, before, cursor, _, _, _, fits, stepped => by
      cases stepped
      exact ⟨before, Chains.nil before, uses_nothing before, fits⟩
  | word :: rest, position, before, cursor, areWords, notes, unlabelled, fits, stepped => by
      rcases areWords word List.mem_cons_self with ⟨sound, isName⟩
      rw [Tree.terminalsFrom, Tree.Cursor.steps_append] at stepped
      rcases Option.bind_eq_some_iff.mp stepped with ⟨behindWord, wordSteps, restSteps⟩
      have notPart : Tree.roleIn kind position ≠ .part := by
        rw [onlyWords]
        simp
      rw [List.map_cons, Tree.preorderFrom_cons]
      refine (keeps_terminal latest sound isName (by decide) notPart notes (unlabelled _) fits
        wordSteps).append notes ?_
      intro middle middleNotes untouched middleFits
      refine ⟨middle, untouched, keeps_words latest onlyWords path next rest (position + 1) middle
        behindWord (fun later member => areWords later (List.mem_cons_of_mem word member))
        middleNotes ?_ middleFits restSteps⟩
      intro place
      rw [untouched.labelAt?, unlabelled]

/-! ## Modules of an import statement -/

/-- The state in which an import statement has the given count left. -/
def importsLeft (state : State) (halves : Nat) : State :=
  { state with importHalves := some halves, importing := state.importing && halves ≠ 0 }

theorem importsLeft_importsLeft_zero (state : State) (halves : Nat) :
    (state.importsLeft halves).importsLeft 0 = state.importsLeft 0 := by
  simp [importsLeft]

theorem Untouched.importsLeft (untouched : Untouched before after) (halves : Nat) :
    Untouched (before.importsLeft halves) (after.importsLeft halves) := by
  refine ⟨by simp, untouched.labels, untouched.awaited, rfl, ?_, untouched.assigning⟩
  simp [State.importsLeft, untouched.importing]

/-- A dotted name in an import statement marks its parts, takes itself off the count, and uses the
marks up. -/
theorem keeps_importedModule (latest : settings.grammar = .version3) {parts : List Tree} {left : Nat}
    (allSound : (Tree.branch Tree.grammar.dottedName parts).AllSound) (notes : before.OnlyNotes)
    (importing : before.importing = true) (count : before.importHalves = some (left + 2))
    (unlabelled : ∀ place, before.labelAt? (path ++ place) = none) (fits : before.LineFits cursor)
    (stepped : cursor.steps (Tree.terminalsFrom Tree.grammar.dottedName 1 parts) = some next) :
    Keeps settings before ((Tree.branch Tree.grammar.dottedName parts).toElement.preorder path)
      (before.importsLeft left) next := by
  rcases takeAll_notes (markAll_notes allSound.sound path) (fun place _ _ => unlabelled place)
    (moduleMarks_nodup 1 parts.length) with ⟨marked, taken, noted⟩
  have sameCount : marked.importHalves = some (left + 2) :=
    (congrArg State.importHalves noted.rest).trans count
  have sameImporting := congrArg State.importing noted.rest
  have finished : marked.finishImport = marked.importsLeft left := by
    simp [finishImport, importsLeft, sameCount]
  have visited : before.takeAll .version3
      (Plan.dottedName before path (Tree.branch Tree.grammar.dottedName parts).toElement) =
      ⟨marked.importsLeft left, none⟩ := by
    have enough : 2 ≤ before.importHalves.getD 0 := by simp [count]
    rw [Plan.dottedName, if_pos importing, if_pos enough, takeAll_append, taken, ← finished]
    rfl
  have isModule (place : Path) (mark : Mark) : (place, mark) ∈ moduleMarks 1 parts.length ↔
      ∃ index, index < parts.length ∧ place = [] ++ [index + 1] ∧ mark = .inclusion := by
    simp only [mem_moduleMarks, Nat.add_comm 1, List.nil_append]
  have included := noted.included unlabelled isModule
  rw [List.append_nil] at included
  have passes : before.Passes settings path
      (Tree.branch Tree.grammar.dottedName parts).toElement (marked.importsLeft left) :=
    passes_branch latest allSound.sound visited
  rcases walks_parts allSound (passes.onlyNotes notes) (Or.inr included.marked)
    (fits_of_line fits (passes.line_of_branch allSound.sound)) stepped with
    ⟨after, chains, uses, nowFits⟩
  rw [Tree.preorder_branch]
  refine passes.keeps ⟨after, chains, ⟨by simp, ?_, ?_, uses.importHalves, ?_, ?_⟩, nowFits⟩
  · intro place _
    by_cases isPart : PartPlaces path 1 parts.length place
    · rw [uses.unlabelled place isPart]
      rcases isPart with ⟨index, _, rfl⟩
      exact (unlabelled _).symm
    · rw [uses.labels place isPart]
      apply noted.unmarked
      rintro other mark member rfl
      rcases mem_moduleMarks.mp member with ⟨index, inside, rfl, _⟩
      exact isPart ⟨index, inside, rfl⟩
  · intro place
    rw [uses.awaited place]
    exact (noted.awaited place).trans (by simp [importsLeft])
  · rw [uses.importing]
    simp [importsLeft, sameImporting]
  · rw [uses.assigning]
    have sameAssigning := congrArg State.assigning noted.rest
    exact sameAssigning

theorem keeps_importedName (latest : settings.grammar = .version3) {tree : Tree} {left : Nat}
    (allSound : tree.AllSound) (isKind : tree.isOf Kind.importedName = true)
    (notes : before.OnlyNotes) (importing : before.importing = true)
    (count : before.importHalves = some (left + 2))
    (unlabelled : ∀ place, before.labelAt? (path ++ place) = none) (fits : before.LineFits cursor)
    (stepped : cursor.steps (tree.terminals role) = some next) :
    Keeps settings before (tree.toElement.preorder path) (before.importsLeft left) next := by
  rcases Tree.exists_branch allSound.sound isKind (by decide) with ⟨children, rfl⟩
  rcases Tree.importedName_cases allSound.sound with ⟨dotted, words, rfl, isDotted, areWords⟩
  have dottedSound : dotted.AllSound := allSound.child List.mem_cons_self
  rcases Tree.exists_branch dottedSound.sound isDotted (by decide) with ⟨parts, rfl⟩
  have passes : before.Passes settings path
      (Tree.branch Kind.importedName (.branch Tree.grammar.dottedName parts :: words)).toElement
      before := passes_branch latest allSound.sound rfl
  have below (place : Path) : before.labelAt? (path ++ [1] ++ place) = none := by
    rw [List.append_assoc]
    exact unlabelled _
  rw [Tree.terminals, Tree.terminalsFrom, Tree.Cursor.steps_append] at stepped
  rcases Option.bind_eq_some_iff.mp stepped with ⟨behindModule, moduleSteps, wordSteps⟩
  rw [Tree.preorder_branch, List.map_cons, Tree.preorderFrom_cons]
  refine passes.keeps ((keeps_importedModule latest dottedSound notes importing count below fits
    moduleSteps).append notes ?_)
  intro middle middleNotes untouched middleFits
  refine ⟨middle, untouched, keeps_words latest (fun _ => rfl) path next words 2 middle behindModule
    ?_ middleNotes ?_ middleFits wordSteps⟩
  · intro word member
    exact ⟨(allSound.child (List.mem_cons_of_mem _ member)).sound, areWords word member⟩
  · intro place
    rw [untouched.labelAt?]
    exact unlabelled place

/-- The modules of an import statement use its count up. -/
theorem keeps_importedNames (latest : settings.grammar = .version3) (path : Path)
    (next : Tree.Cursor) : ∀ (trees : List Tree) (position : Nat) (before : State)
    (cursor : Tree.Cursor),
    Tree.separated (Tree.isOf Kind.importedName) (Tree.isOf Kind.comma) trees = true →
    (∀ tree ∈ trees, tree.AllSound) → before.OnlyNotes → before.importing = true →
    before.importHalves = some (trees.length + 1) →
    (∀ place, before.labelAt? (path ++ place) = none) → before.LineFits cursor →
    cursor.steps (Tree.terminalsFrom Tree.grammar.importedNames position trees) = some next →
    Keeps settings before (Element.preorderFrom path position (trees.map Tree.toElement))
      (before.importsLeft 0) next
  | [], _, _, _, separates, _, _, _, _, _, _, _ => by cases separates
  | [only], position, before, cursor, isName, allSound, notes, importing, count, unlabelled, fits,
      stepped => by
      have below (place : Path) : before.labelAt? (path ++ [position] ++ place) = none := by
        rw [List.append_assoc]
        exact unlabelled _
      rw [Tree.terminalsFrom, Tree.terminalsFrom, List.append_nil] at stepped
      rw [List.map_cons, Tree.preorderFrom_cons, List.map_nil, Element.preorderFrom, List.append_nil]
      exact keeps_importedName latest (allSound only (by simp)) isName notes importing count below fits
        stepped
  | first :: comma :: rest, position, before, cursor, separates, allSound, notes, importing, count,
      unlabelled, fits, stepped => by
      simp only [Tree.separated, Bool.and_eq_true] at separates
      rcases separates with ⟨⟨isName, isComma⟩, separatesRest⟩
      have below (place : Path) : before.labelAt? (path ++ [position] ++ place) = none := by
        rw [List.append_assoc]
        exact unlabelled _
      have counted : before.importHalves = some (rest.length + 1 + 2) := count
      rw [Tree.terminalsFrom, Tree.terminalsFrom, Tree.Cursor.steps_append] at stepped
      rcases Option.bind_eq_some_iff.mp stepped with ⟨behindName, nameSteps, commaAndRest⟩
      rw [Tree.Cursor.steps_append] at commaAndRest
      rcases Option.bind_eq_some_iff.mp commaAndRest with ⟨behindComma, commaSteps, restSteps⟩
      rw [List.map_cons, Tree.preorderFrom_cons]
      refine (keeps_importedName latest (allSound first (by simp)) isName notes importing counted below
        fits nameSteps).append notes ?_
      intro middle middleNotes untouched middleFits
      refine ⟨middle.importsLeft 0, ?_, ?_⟩
      · rw [← importsLeft_importsLeft_zero before (rest.length + 1)]
        exact untouched.importsLeft 0
      have unlabelledMiddle (place : Path) : middle.labelAt? (path ++ place) = none := by
        rw [untouched.labelAt?]
        exact unlabelled place
      have notPart : Tree.Role.word ≠ .part := by decide
      rw [List.map_cons, Tree.preorderFrom_cons]
      refine (keeps_terminal latest (allSound comma (by simp)).sound isComma (by decide) notPart
        middleNotes (unlabelledMiddle _) middleFits commaSteps).append middleNotes ?_
      intro further furtherNotes sameNotes furtherFits
      refine ⟨further.importsLeft 0, sameNotes.importsLeft 0, keeps_importedNames latest path next rest
        (position + 1 + 1) further behindComma separatesRest (fun tree member =>
          allSound tree (by simp [member])) furtherNotes ?_ ?_ ?_ furtherFits restSteps⟩
      · rw [sameNotes.importing, untouched.importing]
        simp [importsLeft, importing]
      · rw [sameNotes.importHalves, untouched.importHalves]
        rfl
      · intro place
        rw [sameNotes.labelAt?]
        exact unlabelledMiddle place

/-! ## Import statements -/

theorem keeps_importList (latest : settings.grammar = .version3) {names : List Tree}
    (allSound : (Tree.branch Tree.grammar.importedNames names).AllSound) (notes : before.OnlyNotes)
    (importing : before.importing = true)
    (unlabelled : ∀ place, before.labelAt? (path ++ place) = none) (fits : before.LineFits cursor)
    (stepped : cursor.steps (Tree.terminalsFrom Tree.grammar.importedNames 1 names) = some next) :
    Keeps settings before ((Tree.branch Tree.grammar.importedNames names).toElement.preorder path)
      (before.importsLeft 0) next := by
  have production : Tree.separated (Tree.isOf Kind.importedName) (Tree.isOf Kind.comma) names = true :=
    Tree.production_holds allSound.sound
  let counted : State := { before with importHalves := some (names.length + 1) }
  have visited : before.takeAll .version3
      (Plan.importedNames .version3 before (Tree.branch Tree.grammar.importedNames names).toElement) =
      ⟨counted, none⟩ := by
    rw [Plan.importedNames, if_pos importing, Tree.length_elements]
    rfl
  have passes : before.Passes settings path
      (Tree.branch Tree.grammar.importedNames names).toElement counted :=
    passes_branch latest allSound.sound visited
  rw [Tree.preorder_branch]
  exact passes.keeps (keeps_importedNames latest path next names 1 counted cursor production
    (fun tree member => allSound.child member) (passes.onlyNotes notes) importing rfl unlabelled
    (fits_of_line fits (passes.line_of_branch allSound.sound)) stepped)

theorem holds_importedName {tree : Tree} (allSound : tree.AllSound)
    (isKind : tree.isOf Kind.importedName = true) : tree.holds Tree.grammar.power = false := by
  rcases Tree.exists_branch allSound.sound isKind (by decide) with ⟨children, rfl⟩
  rcases Tree.importedName_cases allSound.sound with ⟨dotted, words, rfl, isDotted, areWords⟩
  refine holds_eq_false (by decide) ?_
  intro child member
  have childSound := allSound.child member
  rcases List.mem_cons.mp member with rfl | isWord
  · rcases Tree.exists_branch childSound.sound isDotted (by decide) with ⟨parts, rfl⟩
    exact holds_parts childSound
  · exact holds_terminal childSound.sound (areWords child isWord) (by decide) (by decide)

theorem holds_importName {word : Tree} {names : List Tree}
    (allSound : (Tree.branch Tree.grammar.importName
      [word, .branch Tree.grammar.importedNames names]).AllSound)
    (isName : word.isOf Kind.name = true) :
    (Tree.branch Tree.grammar.importName
      [word, .branch Tree.grammar.importedNames names]).holds Tree.grammar.power = false := by
  have listSound : (Tree.branch Tree.grammar.importedNames names).AllSound :=
    allSound.child (by simp)
  have production : Tree.separated (Tree.isOf Kind.importedName) (Tree.isOf Kind.comma) names = true :=
    Tree.production_holds listSound.sound
  refine holds_eq_false (by decide) ?_
  intro child member
  have childSound := allSound.child member
  simp only [List.mem_cons, List.not_mem_nil, or_false] at member
  rcases member with rfl | rfl
  · exact holds_terminal childSound.sound isName (by decide) (by decide)
  · refine holds_eq_false (by decide) ?_
    intro tree inNames
    have treeSound := listSound.child inNames
    rcases Tree.separated_all names production tree inNames with isImported | isComma
    · exact holds_importedName treeSound isImported
    · exact holds_terminal treeSound.sound isComma (by decide) (by decide)

theorem walkable_importName (latest : settings.grammar = .version3) {children : List Tree}
    (allSound : (Tree.branch Tree.grammar.importName children).AllSound) :
    Walkable settings (.branch Tree.grammar.importName children) := by
  rcases Tree.importName_cases allSound with ⟨word, names, rfl, isName⟩
  intro role path before cursor next notPart notes idle expects fits stepped
  have wordSound := (allSound.child List.mem_cons_self).sound
  have listSound : (Tree.branch Tree.grammar.importedNames names).AllSound :=
    allSound.child (by simp)
  have unlabelled := expects.unlabelled allSound.sound (by decide)
  have notAwaited := expects.unawaited (by decide) (by decide)
  let begun : State := { before with importing := true }
  have passes : before.Passes settings path (Tree.branch Tree.grammar.importName
      [word, .branch Tree.grammar.importedNames names]).toElement begun :=
    passes_branch latest allSound.sound rfl
  have begunNotes := passes.onlyNotes notes
  have begunFits := fits_of_line fits (passes.line_of_branch allSound.sound)
  rw [Tree.terminals, Tree.terminalsFrom, Tree.Cursor.steps_append] at stepped
  rcases Option.bind_eq_some_iff.mp stepped with ⟨behindWord, wordSteps, listSteps⟩
  rw [Tree.terminalsFrom, Tree.terminalsFrom, List.append_nil] at listSteps
  have keeps : Keeps settings before
      ((Tree.branch Tree.grammar.importName
        [word, .branch Tree.grammar.importedNames names]).toElement.preorder path)
      (before.importsLeft 0) next := by
    rw [Tree.preorder_branch, List.map_cons, Tree.preorderFrom_cons]
    refine passes.keeps ((keeps_terminal latest wordSound isName (by decide) (by decide) begunNotes
      (unlabelled _) begunFits wordSteps).append begunNotes ?_)
    intro middle middleNotes untouched middleFits
    have below (place : Path) : middle.labelAt? (path ++ [2] ++ place) = none := by
      rw [untouched.labelAt?, List.append_assoc]
      exact unlabelled _
    refine ⟨middle.importsLeft 0, ?_, ?_⟩
    · have same : begun.importsLeft 0 = before.importsLeft 0 := by simp [begun, importsLeft]
      rw [← same]
      exact untouched.importsLeft 0
    · rw [List.map_cons, Tree.preorderFrom_cons, List.map_nil, Element.preorderFrom, List.append_nil]
      exact keeps_importList latest listSound middleNotes untouched.importing below middleFits listSteps
  rcases keeps with ⟨after, chains, untouched, nowFits⟩
  have calm : (before.importsLeft 0).Idle := ⟨by simp [importsLeft], rfl⟩
  have walked := Uses.walked untouched (by simp) (fun place labelled => labelled (unlabelled place))
    notAwaited (holds_importName allSound isName) calm nowFits
  exact ⟨after, chains, ⟨walked.clears.unlabelled, walked.clears.labels, walked.clears.reached,
    walked.clears.awaited⟩, walked.assigning, walked.idle, walked.fits⟩

end State

end CrossRef
