import CrossRef.Proofs.DottedNames

/-!
# Trees that can be walked through

`State.Walkable` is what is proved of every sound tree: from each state that meets the tree's
expectations, a walk goes through the tree without a fault, and leaves nothing noted for places in
it.  Terminals and dotted names, which only use marks up, are walkable by themselves.
-/

namespace CrossRef

namespace State

variable {settings : Settings} {before after : State} {path : Path} {role : Tree.Role} {kind : Nat}
  {children : List Tree} {cursor next : Tree.Cursor}

/-- What a walk through a tree leaves behind. -/
structure Walked (before : State) (path : Path) (tree : Tree) (next : Tree.Cursor) (after : State) :
    Prop where
  clears : Clears (path <+: ·) before after
  assigning : after.assigning = (before.assigning && !tree.holds Tree.grammar.power)
  idle : after.Idle
  fits : after.LineFits next

/-- A tree that a walk can go through from every state that the tree can rely on. -/
def Walkable (settings : Settings) (tree : Tree) : Prop :=
  ∀ role path before cursor next, role ≠ .part → before.OnlyNotes → before.Idle →
    before.Expects path role tree → before.LineFits cursor →
    cursor.steps (tree.terminals role) = some next →
    ∃ after, Chains settings before (tree.toElement.preorder path) after ∧
      before.Walked path tree next after

/-- Marks that are used up are all that a tree without a primary changes. -/
theorem Uses.walked {region : Path → Prop} {tree : Tree} (uses : Uses region before after)
    (inside : ∀ place, region place → path <+: place)
    (labelled : ∀ place, before.labelAt? (path ++ place) ≠ none → region (path ++ place))
    (notAwaited : ∀ place, path ++ place ∉ before.awaited)
    (without : tree.holds Tree.grammar.power = false) (idle : before.Idle)
    (fits : after.LineFits next) : before.Walked path tree next after := by
  refine ⟨⟨?_, ?_, ?_, ?_⟩, ?_, ⟨?_, ?_⟩, fits⟩
  · rintro _ ⟨place, rfl⟩
    by_cases isUsed : region (path ++ place)
    · exact uses.unlabelled _ isUsed
    · rw [uses.labels _ isUsed]
      apply Classical.byContradiction
      intro isLabelled
      exact isUsed (labelled place isLabelled)
  · intro place beside
    apply uses.labels
    intro isUsed
    exact beside (inside place isUsed)
  · rintro _ ⟨place, rfl⟩
    rw [uses.awaited]
    exact notAwaited place
  · intro place _
    exact uses.awaited place
  · rw [uses.assigning, without]
    simp
  · rw [uses.importing]
    exact idle.importing
  · rw [uses.importHalves]
    exact idle.halves

/-! ## Terminals -/

theorem holds_leaf {text : String} {line kind : Int} {number : Nat}
    (sound : (Tree.leaf kind text line).sound = true) (isConstruct : Kind.firstConstruct ≤ number) :
    (Tree.leaf kind text line).holds number = false := by
  simp only [Tree.sound, Bool.and_eq_true, decide_eq_true_eq] at sound
  have differs : ¬ kind = number := by omega
  simp [Tree.holds, Tree.subtrees, Tree.isOf, Tree.kind, differs]

theorem holds_terminal {tree : Tree} {number other : Nat} (sound : tree.sound = true)
    (isKind : tree.isOf other = true) (isTerminal : other < Kind.firstConstruct)
    (isConstruct : Kind.firstConstruct ≤ number) : tree.holds number = false := by
  rcases Tree.exists_leaf sound isKind isTerminal with ⟨text, line, rfl⟩
  exact holds_leaf sound isConstruct

theorem holds_eq_false {number : Nat} (differs : kind ≠ number)
    (each : ∀ child ∈ children, child.holds number = false) :
    (Tree.branch kind children).holds number = false := by
  rw [Tree.holds_branch, Bool.or_eq_false_iff]
  refine ⟨decide_eq_false differs, List.any_eq_false.mpr ?_⟩
  intro child member
  rw [each child member]
  exact Bool.false_ne_true

theorem walkable_leaf (latest : settings.grammar = .version3) {text : String} {line kind : Int}
    (sound : (Tree.leaf kind text line).sound = true) :
    Walkable settings (.leaf kind text line) := by
  intro role path before cursor next notPart notes idle expects fits stepped
  have holds (place : Path) (labelled : before.labelAt? (path ++ place) ≠ none) :
      place = [] ∧ role ≠ .word ∧ kind = Kind.name := by
    rcases expects.labels with onlyNames | ⟨parts, isDotted, _⟩
    · cases onlyNames place labelled with
      | here notWord isName => exact ⟨rfl, notWord, Tree.isOf_iff.mp isName⟩
    · cases isDotted
  have notAwaited (place : Path) : path ++ place ∉ before.awaited := by
    intro isAwaited
    cases expects.awaited place isAwaited with
    | here isTarget =>
        simp only [Tree.sound, Bool.and_eq_true, decide_eq_true_eq] at sound
        rcases List.any_eq_true.mp isTarget with ⟨target, member, isKind⟩
        have sameKind : kind = target := Tree.isOf_iff.mp isKind
        simp only [Grammar.version3, List.mem_cons, List.not_mem_nil, or_false] at member
        simp only [Kind.firstConstruct] at sound
        omega
  have stepped : cursor.step ⟨role, kind, text, line⟩ = some next := by
    simpa [Tree.terminals, Tree.Cursor.steps] using stepped
  have held : before.labelAt? path ≠ none → role ≠ .word ∧ kind = Kind.name := by
    intro labelled
    exact (holds [] (by simpa using labelled)).2
  rcases canRead_leaf latest sound notPart notes fits stepped held with
    ⟨after, passes, same, nowFits⟩
  refine ⟨after, ?_, same.uses.walked ?_ ?_ notAwaited (holds_leaf sound (by decide)) idle nowFits⟩
  · rw [Tree.preorder_leaf]
    exact .cons passes (Chains.nil after)
  · rintro place rfl
    exact List.prefix_refl place
  · intro place labelled
    rw [(holds place labelled).1, List.append_nil]

/-! ## Constructs -/

theorem passes_branch (latest : settings.grammar = .version3)
    (sound : (Tree.branch kind children).sound = true)
    (taken : before.takeAll .version3
      (Plan.ofConstruct .version3 before path (Tree.branch kind children).toElement
        (Grammar.version3.constructOf (.int kind))) = ⟨after, none⟩) :
    before.Passes settings path (Tree.branch kind children).toElement after := by
  apply Passes.construct
  · have bound : ((Kind.firstConstruct : Nat) : Int) ≤ kind :=
      Int.ofNat_le.mpr (Tree.firstConstruct_le sound)
    simp [Element.isConstruct, Tree.kind, Element.atLeast, bound]
  · unfold visitConstruct Plan.construct
    rw [latest, Tree.kind_toElement]
    exact taken

theorem Passes.line_of_branch {middle : State}
    (passes : before.Passes settings path (Tree.branch kind children).toElement middle)
    (sound : (Tree.branch kind children).sound = true) : middle.line = before.line := by
  cases passes with
  | construct isConstruct visited =>
      have same := before.visitConstruct_samePage settings path (Tree.branch kind children).toElement
      rw [visited] at same
      exact same.line
  | terminal number isTerminal =>
      have bound : ((Kind.firstConstruct : Nat) : Int) ≤ kind :=
        Int.ofNat_le.mpr (Tree.firstConstruct_le sound)
      simp [Element.isConstruct, Tree.kind, Element.atLeast, bound] at isTerminal

theorem fits_of_line (fits : before.LineFits cursor) (same : after.line = before.line) :
    after.LineFits cursor := by
  cases cursor with
  | ended => exact same.trans fits
  | on number behindSymbol =>
      rcases fits with ⟨line, opened, isNumber, isLast⟩
      exact ⟨line, same.trans opened, isNumber, isLast⟩

/-! ## Dotted names -/

theorem holds_parts {parts : List Tree}
    (allSound : (Tree.branch Tree.grammar.dottedName parts).AllSound) :
    (Tree.branch Tree.grammar.dottedName parts).holds Tree.grammar.power = false := by
  have production : Tree.separated (Tree.isOf Kind.name) (Tree.isOf Kind.dot) parts = true :=
    Tree.production_holds allSound.sound
  refine holds_eq_false (by decide) ?_
  intro part member
  have partSound := (allSound.child member).sound
  rcases Tree.separated_all parts production part member with isName | isDot
  · exact holds_terminal partSound isName (by decide) (by decide)
  · exact holds_terminal partSound isDot (by decide) (by decide)

/-- A mark in a dotted name is for one of its names. -/
theorem holds_dottedName {parts : List Tree} {place : Path}
    (allSound : (Tree.branch Tree.grammar.dottedName parts).AllSound)
    (holds : Tree.Holds role (.branch Tree.grammar.dottedName parts) place) :
    ∃ index part, place = [index + 1] ∧ parts[index]? = some part ∧
      part.isOf Kind.name = true := by
  have production : Tree.separated (Tree.isOf Kind.name) (Tree.isOf Kind.dot) parts = true :=
    Tree.production_holds allSound.sound
  rcases (holds.under allSound.sound).2 with ⟨index, part, rest, rfl, isPart, holdsThere⟩
  have member := List.mem_of_getElem? isPart
  rcases Tree.exists_part (allSound.child member).sound
    (Tree.separated_all parts production part member) with ⟨kind, text, line, rfl, _⟩
  cases holdsThere with
  | here notWord isName => exact ⟨index, _, rfl, isPart, isName⟩

theorem walkable_dottedName (latest : settings.grammar = .version3) {parts : List Tree}
    (allSound : (Tree.branch Tree.grammar.dottedName parts).AllSound) :
    Walkable settings (.branch Tree.grammar.dottedName parts) := by
  intro role path before cursor next notPart notes idle expects fits stepped
  have taken : before.takeAll .version3
      (Plan.dottedName before path (Tree.branch Tree.grammar.dottedName parts).toElement) =
      ⟨before, none⟩ := by
    simp [Plan.dottedName, idle.importing, takeAll]
  have passes : before.Passes settings path
      (Tree.branch Tree.grammar.dottedName parts).toElement before :=
    passes_branch latest allSound.sound taken
  have below (place : Path) (labelled : before.labelAt? (path ++ place) ≠ none) :
      ∃ index, index < parts.length ∧ place = [index + 1] := by
    rcases expects.labels with onlyNames | ⟨others, isDotted, included⟩
    · rcases holds_dottedName allSound (onlyNames place labelled) with
        ⟨index, part, isPlace, isPart, _⟩
      exact ⟨index, (List.getElem?_eq_some_iff.mp isPart).1, isPlace⟩
    · cases isDotted
      exact included.only place labelled
  have labels : before.PartLabels path parts := by
    rcases expects.labels with onlyNames | ⟨others, isDotted, included⟩
    · left
      intro index part isPart labelled
      rcases holds_dottedName allSound (onlyNames [index + 1] labelled) with
        ⟨other, named, isPlace, isNamed, isName⟩
      cases isPlace
      rw [isPart] at isNamed
      cases isNamed
      exact isName
    · cases isDotted
      exact Or.inr included.marked
  have notAwaited (place : Path) : path ++ place ∉ before.awaited :=
    expects.unawaited (by decide) (by decide) place
  have walked : ∃ after,
      Chains settings before (Element.preorderFrom path 1 (parts.map Tree.toElement)) after ∧
      Uses (PartPlaces path 1 parts.length) before after ∧ after.LineFits next :=
    walks_parts allSound notes labels fits stepped
  rcases walked with ⟨after, chains, uses, nowFits⟩
  refine ⟨after, ?_, uses.walked ?_ ?_ notAwaited (holds_parts allSound) idle nowFits⟩
  · rw [Tree.preorder_branch]
    exact .cons passes chains
  · rintro _ ⟨index, _, rfl⟩
    exact List.prefix_append path _
  · intro place labelled
    rcases below place labelled with ⟨index, isIndex, rfl⟩
    exact ⟨index, isIndex, by rw [Nat.add_comm 1 index]⟩

end State

end CrossRef
