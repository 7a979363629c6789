import CrossRef.Proofs.Bookkeeping

/-!
# What trees find noted

When a walk comes to a tree, the constructs around it have noted marks and awaited expressions for
places in it.  `State.Expects` says where these can lie, and what else a tree can rely on;
`State.Enters` says that a construct, once its own visit is over, leaves to each tree right below it
what that tree expects.  A construct that does nothing hands on what it found, and one that only
makes notes leaves these.
-/

namespace CrossRef

namespace Tree

/-! ## Sound trees -/

theorem allSubtrees_eq_flatMap (trees : List Tree) : allSubtrees trees = trees.flatMap subtrees := by
  induction trees with
  | nil => rfl
  | cons first rest ih => rw [allSubtrees, ih, List.flatMap_cons]

theorem mem_subtrees_self (tree : Tree) : tree ∈ tree.subtrees := by
  cases tree <;> simp [subtrees]

/-- A tree all of whose subtrees are sound. -/
def AllSound (tree : Tree) : Prop :=
  ∀ subtree ∈ tree.subtrees, subtree.sound = true

theorem AllSound.sound {tree : Tree} (allSound : tree.AllSound) : tree.sound = true :=
  allSound tree tree.mem_subtrees_self

theorem AllSound.child {kind : Nat} {children : List Tree} {child : Tree}
    (allSound : (branch kind children).AllSound) (member : child ∈ children) : child.AllSound := by
  intro subtree below
  apply allSound
  rw [subtrees, allSubtrees_eq_flatMap]
  exact List.mem_cons_of_mem _ (List.mem_flatMap.mpr ⟨child, member, below⟩)

variable {tree : Tree} {kind number : Nat} {children : List Tree}

theorem firstConstruct_le (sound : (branch kind children).sound = true) :
    Kind.firstConstruct ≤ kind := by
  simp only [Tree.sound, Bool.and_eq_true, decide_eq_true_eq] at sound
  exact sound.1.1

theorem production_holds (sound : (branch kind children).sound = true) :
    production kind children = true := by
  simp only [Tree.sound, Bool.and_eq_true, decide_eq_true_eq] at sound
  exact sound.1.2

theorem isOf_iff : tree.isOf number = true ↔ tree.kind = number := by
  unfold isOf
  exact decide_eq_true_iff

@[simp]
theorem isOf_branch (kind number : Nat) (children : List Tree) :
    (branch kind children).isOf number = decide (kind = number) := by
  rw [Bool.eq_iff_iff, isOf_iff, decide_eq_true_iff]
  exact Int.ofNat_inj

/-- A sound tree of a terminal's kind is a terminal. -/
theorem exists_leaf (sound : tree.sound = true) (isKind : tree.isOf number = true)
    (isTerminal : number < Kind.firstConstruct) : ∃ text line, tree = .leaf number text line := by
  cases tree with
  | leaf kind text line =>
      have same : kind = number := isOf_iff.mp isKind
      exact ⟨text, line, by rw [same]⟩
  | branch kind children =>
      have same : kind = number := by simpa using isKind
      have bound := firstConstruct_le sound
      omega

/-- A sound tree of a construct's kind is a construct. -/
theorem exists_branch (sound : tree.sound = true) (isKind : tree.isOf number = true)
    (isConstruct : Kind.firstConstruct ≤ number) : ∃ children, tree = .branch number children := by
  cases tree with
  | leaf kind text line =>
      have same : kind = number := isOf_iff.mp isKind
      simp only [Tree.sound, Bool.and_eq_true, decide_eq_true_eq] at sound
      omega
  | branch kind children =>
      have same : kind = number := by simpa using isKind
      exact ⟨children, by rw [same]⟩

theorem holds_branch (kind number : Nat) (children : List Tree) :
    (branch kind children).holds number = (decide (kind = number) || children.any (holds number)) := by
  have below : (children.any fun child => child.subtrees.any (isOf number)) =
      children.any (holds number) := rfl
  rw [holds, subtrees, allSubtrees_eq_flatMap, List.any_cons, List.any_flatMap, isOf_branch, below]

/-! ## Places of notes -/

/-- The constructs that hand on marks for terminals below them. -/
def carriers : List Nat :=
  [grammar.atom, grammar.trailer, grammar.decorators, grammar.decorator, grammar.dottedName]

/-- A place in a tree where a mark can be noted: a name that its role lets hold one. -/
inductive Holds : Role → Tree → Path → Prop where
  | here {role : Role} {tree : Tree} (notWord : role ≠ .word) (isName : tree.isOf Kind.name = true) :
      Holds role tree []
  | descend {role : Role} {kind : Nat} {children : List Tree} {index : Nat} {child : Tree}
      {place : Path} (carries : kind ∈ carriers) (isChild : children[index]? = some child)
      (below : Holds (roleIn kind (index + 1)) child place) :
      Holds role (.branch kind children) ((index + 1) :: place)

/-- The constructs that hand on awaited expressions. -/
def awaiters : List Nat :=
  [grammar.targetList, Kind.members, grammar.atom]

/-- A place in a tree where an expression can be awaited. -/
inductive Awaits : Tree → Path → Prop where
  | here {tree : Tree} (isTarget : tree.isOneOf grammar.targets = true) : Awaits tree []
  | descend {kind : Nat} {children : List Tree} {index : Nat} {child : Tree} {place : Path}
      (leads : kind ∈ awaiters) (isChild : children[index]? = some child)
      (below : Awaits child place) :
      Awaits (.branch kind children) ((index + 1) :: place)

/-- A place below a construct where a mark can be noted. -/
def HoldsBelow (kind : Nat) (children : List Tree) (place : Path) : Prop :=
  ∃ index child rest, place = (index + 1) :: rest ∧ children[index]? = some child ∧
    Holds (roleIn kind (index + 1)) child rest

/-- A place below a construct where an expression can be awaited. -/
def AwaitsBelow (children : List Tree) (place : Path) : Prop :=
  ∃ index child rest, place = (index + 1) :: rest ∧ children[index]? = some child ∧
    Awaits child rest

theorem Holds.under {role : Role} {place : Path} (holds : Holds role (.branch kind children) place)
    (sound : (branch kind children).sound = true) :
    kind ∈ carriers ∧ HoldsBelow kind children place := by
  cases holds with
  | here notWord isName =>
      have bound := firstConstruct_le sound
      rw [isOf_branch] at isName
      simp only [decide_eq_true_eq] at isName
      rw [isName] at bound
      exact absurd bound (by decide)
  | descend carries isChild below => exact ⟨carries, _, _, _, rfl, isChild, below⟩

theorem Awaits.under {place : Path} (awaits : Awaits (.branch kind children) place) :
    place = [] ∧ kind ∈ grammar.targets ∨ kind ∈ awaiters ∧ AwaitsBelow children place := by
  cases awaits with
  | here isTarget =>
      left
      simp only [isOneOf, isOf_branch, List.any_eq_true, decide_eq_true_eq] at isTarget
      rcases isTarget with ⟨target, member, rfl⟩
      exact ⟨rfl, member⟩
  | descend leads isChild below => exact Or.inr ⟨leads, _, _, _, rfl, isChild, below⟩

end Tree

namespace State

open CrossRef.Tree (Holds Awaits HoldsBelow AwaitsBelow)

/-- All terminals of a dotted name, and nothing else below its path, are marked as a module. -/
structure Included (state : State) (path : Path) (children : List Tree) : Prop where
  marked : ∀ index, index < children.length →
    state.labelAt? (path ++ [index + 1]) = some (.known .inclusion)
  only : ∀ place, state.labelAt? (path ++ place) ≠ none →
    ∃ index, index < children.length ∧ place = [index + 1]

/-- The marks noted for places in a tree: they are for names, or make a dotted name a module. -/
def Carries (state : State) (path : Path) (role : Tree.Role) (tree : Tree) : Prop :=
  (∀ place, state.labelAt? (path ++ place) ≠ none → Holds role tree place) ∨
    ∃ children, tree = .branch Tree.grammar.dottedName children ∧ state.Included path children

/-- What a tree relies on when a walk comes to it. -/
structure Expects (state : State) (path : Path) (role : Tree.Role) (tree : Tree) : Prop where
  labels : state.Carries path role tree
  awaited : ∀ place, path ++ place ∈ state.awaited → Awaits tree place
  assigning : state.assigning = true →
    (∀ place, path ++ place ∉ state.awaited) ∧
      tree.holds Tree.grammar.expressionStatement = false

/-- No import statement is under way. -/
structure Idle (state : State) : Prop where
  importing : state.importing = false
  halves : state.importHalves.getD 0 = 0

/-- What a construct leaves to the trees right below it. -/
structure Enters (before : State) (path : Path) (kind : Nat) (children : List Tree) (after : State) :
    Prop where
  labels_beside : ∀ other, ¬ path <+: other → after.labelAt? other = before.labelAt? other
  awaited_beside : ∀ other, ¬ path <+: other → (other ∈ after.awaited ↔ other ∈ before.awaited)
  labels_below : ∀ place, after.labelAt? (path ++ place) ≠ none →
    ∃ index rest, index < children.length ∧ place = (index + 1) :: rest
  awaited_below : ∀ place, path ++ place ∈ after.awaited →
    ∃ index rest, index < children.length ∧ place = (index + 1) :: rest
  each : ∀ index child, children[index]? = some child →
    after.Expects (path ++ [index + 1]) (Tree.roleIn kind (index + 1)) child
  assigning : (after.assigning && !children.any (Tree.holds Tree.grammar.power)) =
    (before.assigning && !(Tree.branch kind children).holds Tree.grammar.power)
  idle : after.Idle

variable {before after : State} {path : Path} {role : Tree.Role} {kind : Nat} {children : List Tree}

theorem Carries.holds (carries : before.Carries path role (.branch kind children))
    (notDotted : kind ≠ Tree.grammar.dottedName) (place : Path)
    (labelled : before.labelAt? (path ++ place) ≠ none) : Holds role (.branch kind children) place := by
  rcases carries with onlyNames | ⟨parts, isDotted, _⟩
  · exact onlyNames place labelled
  · cases isDotted
    exact absurd rfl notDotted

theorem assigning_of_not_power (notPower : kind ≠ Tree.grammar.power)
    (same : after.assigning = before.assigning) :
    (after.assigning && !children.any (Tree.holds Tree.grammar.power)) =
      (before.assigning && !(Tree.branch kind children).holds Tree.grammar.power) := by
  simp [Tree.holds_branch, same, notPower]

theorem holds_child {index : Nat} {child : Tree} {number : Nat}
    (without : (Tree.branch kind children).holds number = false)
    (isChild : children[index]? = some child) : child.holds number = false := by
  rw [Tree.holds_branch, Bool.or_eq_false_iff] at without
  have none := List.any_eq_false.mp without.2 child (List.mem_of_getElem? isChild)
  simpa using none

/-- A construct that does nothing hands on what it found. -/
theorem Expects.enters_same (expects : before.Expects path role (.branch kind children))
    (idle : before.Idle) (sound : (Tree.branch kind children).sound = true)
    (notDotted : kind ≠ Tree.grammar.dottedName) (notPower : kind ≠ Tree.grammar.power)
    (arrived : path ∉ before.awaited) : before.Enters path kind children before := by
  have labelled (place : Path) (labelled : before.labelAt? (path ++ place) ≠ none) :
      HoldsBelow kind children place :=
    ((expects.labels.holds notDotted place labelled).under sound).2
  have awaited (place : Path) (awaited : path ++ place ∈ before.awaited) :
      AwaitsBelow children place := by
    rcases (expects.awaited place awaited).under with ⟨isHere, _⟩ | ⟨_, below⟩
    · rw [isHere, List.append_nil] at awaited
      exact absurd awaited arrived
    · exact below
  refine ⟨fun _ _ => rfl, fun _ _ => Iff.rfl, ?_, ?_, ?_, assigning_of_not_power notPower rfl, idle⟩
  · intro place isLabelled
    rcases labelled place isLabelled with ⟨index, child, rest, isPlace, isChild, _⟩
    exact ⟨index, rest, (List.getElem?_eq_some_iff.mp isChild).1, isPlace⟩
  · intro place isAwaited
    rcases awaited place isAwaited with ⟨index, child, rest, isPlace, isChild, _⟩
    exact ⟨index, rest, (List.getElem?_eq_some_iff.mp isChild).1, isPlace⟩
  · intro index child isChild
    refine ⟨Or.inl ?_, ?_, ?_⟩
    · intro place isLabelled
      rw [List.append_assoc] at isLabelled
      rcases labelled _ isLabelled with ⟨otherIndex, other, rest, isPlace, isOther, holds⟩
      cases isPlace
      rw [isChild] at isOther
      cases isOther
      exact holds
    · intro place isAwaited
      rw [List.append_assoc] at isAwaited
      rcases awaited _ isAwaited with ⟨otherIndex, other, rest, isPlace, isOther, awaits⟩
      cases isPlace
      rw [isChild] at isOther
      cases isOther
      exact awaits
    · intro assigning
      rcases expects.assigning assigning with ⟨noneAwaited, noStatement⟩
      refine ⟨?_, holds_child noStatement isChild⟩
      intro place
      rw [List.append_assoc]
      exact noneAwaited _

theorem Expects.unlabelled (expects : before.Expects path role (.branch kind children))
    (sound : (Tree.branch kind children).sound = true) (notCarrier : kind ∉ Tree.carriers)
    (place : Path) : before.labelAt? (path ++ place) = none := by
  have notDotted : kind ≠ Tree.grammar.dottedName := by
    rintro rfl
    exact notCarrier (by decide)
  cases label : before.labelAt? (path ++ place) with
  | none => rfl
  | some label =>
      have holds := expects.labels.holds notDotted place (by simp [label])
      exact absurd (holds.under sound).1 notCarrier

theorem Expects.unawaited (expects : before.Expects path role (.branch kind children))
    (notAwaiter : kind ∉ Tree.awaiters) (notTarget : kind ∉ Tree.grammar.targets) (place : Path) :
    path ++ place ∉ before.awaited := by
  intro isAwaited
  rcases (expects.awaited place isAwaited).under with ⟨_, isTarget⟩ | ⟨isAwaiter, _⟩
  · exact notTarget isTarget
  · exact notAwaiter isAwaiter

/-- A state from which a construct starts to make notes: it differs from the one that the construct
was met in at most by what the construct is, not by notes. -/
structure Starts (before : State) (kind : Nat) (children : List Tree) (awaited : List Path)
    (middle : State) : Prop where
  sameMarks : middle.marks = before.marks
  sameAwaited : middle.awaited = before.awaited
  calm : middle.assigning = true → before.assigning = true ∧ awaited = []
  assigning : (middle.assigning && !children.any (Tree.holds Tree.grammar.power)) =
    (before.assigning && !(Tree.branch kind children).holds Tree.grammar.power)
  idle : middle.Idle

theorem starts_same {awaited : List Path} (idle : before.Idle) (notPower : kind ≠ Tree.grammar.power)
    (calm : before.assigning = true → awaited = []) :
    Starts before kind children awaited before :=
  ⟨rfl, rfl, fun assigning => ⟨assigning, calm assigning⟩, assigning_of_not_power notPower rfl, idle⟩

theorem Starts.labelAt? {middle : State} {awaited : List Path}
    (starts : Starts before kind children awaited middle) (place : Path) :
    middle.labelAt? place = before.labelAt? place := by
  unfold State.labelAt?
  rw [starts.sameMarks]

variable {middle : State} {marks : List (Path × Mark)} {awaited : List Path}

/-- A construct that finds nothing noted leaves its own notes to the trees below it. -/
theorem Expects.enters_noted (expects : before.Expects path role (.branch kind children))
    (notAwaiter : kind ∉ Tree.awaiters) (notTarget : kind ∉ Tree.grammar.targets)
    (unlabelled : ∀ place, before.labelAt? (path ++ place) = none)
    (starts : Starts before kind children awaited middle)
    (noted : middle.Noted path marks awaited after)
    (below : ∀ place mark, (place, mark) ∈ marks →
      ∃ index rest, index < children.length ∧ place = (index + 1) :: rest)
    (labels : ∀ index child, children[index]? = some child →
      after.Carries (path ++ [index + 1]) (Tree.roleIn kind (index + 1)) child)
    (awaits : ∀ place ∈ awaited, AwaitsBelow children place) :
    before.Enters path kind children after := by
  have isAssigning : after.assigning = middle.assigning := by
    rw [noted.rest]
  have isAwaited (place : Path) : path ++ place ∈ after.awaited ↔ place ∈ awaited := by
    rw [noted.awaited, starts.sameAwaited]
    constructor
    · rintro (old | ⟨other, member, same⟩)
      · exact absurd old (expects.unawaited notAwaiter notTarget place)
      · rwa [List.append_cancel_left same]
    · intro member
      exact Or.inr ⟨place, member, rfl⟩
  refine ⟨?_, ?_, ?_, ?_, ?_, ?_, ?_⟩
  · intro other beside
    rw [noted.unmarked other, starts.labelAt?]
    rintro place mark _ rfl
    exact beside (List.prefix_append path place)
  · intro other beside
    rw [noted.awaited, starts.sameAwaited]
    constructor
    · rintro (old | ⟨place, _, rfl⟩)
      · exact old
      · exact absurd (List.prefix_append path place) beside
    · exact Or.inl
  · intro place isLabelled
    have fresh : middle.labelAt? (path ++ place) = none := by
      rw [starts.labelAt?, unlabelled]
    rcases noted.mem_of_labelled fresh isLabelled with ⟨mark, member⟩
    exact below place mark member
  · intro place member
    rcases awaits place ((isAwaited place).mp member) with ⟨index, child, rest, isPlace, isChild, _⟩
    exact ⟨index, rest, (List.getElem?_eq_some_iff.mp isChild).1, isPlace⟩
  · intro index child isChild
    refine ⟨labels index child isChild, ?_, ?_⟩
    · intro place member
      rw [List.append_assoc] at member
      rcases awaits _ ((isAwaited _).mp member) with ⟨_, other, rest, isPlace, isOther, awaitsThere⟩
      cases isPlace
      rw [isChild] at isOther
      cases isOther
      exact awaitsThere
    · intro assigning
      rw [isAssigning] at assigning
      rcases starts.calm assigning with ⟨wasAssigning, nothing⟩
      refine ⟨?_, holds_child (expects.assigning wasAssigning).2 isChild⟩
      intro place member
      rw [List.append_assoc, isAwaited, nothing] at member
      cases member
  · rw [isAssigning]
    exact starts.assigning
  · rw [noted.rest]
    exact ⟨starts.idle.importing, starts.idle.halves⟩

/-- Marks for names are all that the trees below a construct find. -/
theorem Noted.carries (noted : middle.Noted path marks awaited after)
    (unlabelled : ∀ place, middle.labelAt? (path ++ place) = none)
    (holds : ∀ place mark, (place, mark) ∈ marks → HoldsBelow kind children place)
    {index : Nat} {child : Tree} (isChild : children[index]? = some child) :
    after.Carries (path ++ [index + 1]) (Tree.roleIn kind (index + 1)) child := by
  left
  intro place isLabelled
  rw [List.append_assoc] at isLabelled
  rcases noted.mem_of_labelled (unlabelled _) isLabelled with ⟨mark, member⟩
  rcases holds _ mark member with ⟨_, other, rest, isPlace, isOther, holdsThere⟩
  cases isPlace
  rw [isChild] at isOther
  cases isOther
  exact holdsThere

/-- A plan that only notes names and expressions comes off and enters its construct. -/
theorem Expects.enters_notes {plan : Plan}
    (expects : before.Expects path role (.branch kind children))
    (sound : (Tree.branch kind children).sound = true) (notCarrier : kind ∉ Tree.carriers)
    (notAwaiter : kind ∉ Tree.awaiters) (notTarget : kind ∉ Tree.grammar.targets)
    (starts : Starts before kind children awaited middle) (notes : plan.Notes path marks awaited)
    (once : (marks.map Prod.fst).Nodup)
    (holds : ∀ place mark, (place, mark) ∈ marks → HoldsBelow kind children place)
    (awaits : ∀ place ∈ awaited, AwaitsBelow children place) :
    ∃ after, middle.takeAll .version3 plan = ⟨after, none⟩ ∧
      before.Enters path kind children after := by
  have unlabelled := expects.unlabelled sound notCarrier
  have fresh (place : Path) : middle.labelAt? (path ++ place) = none := by
    rw [starts.labelAt?]
    exact unlabelled place
  rcases takeAll_notes notes (fun place mark _ => fresh place) once with ⟨after, taken, noted⟩
  refine ⟨after, taken, expects.enters_noted notAwaiter notTarget unlabelled starts noted ?_
    (fun index child isChild => noted.carries fresh holds isChild) awaits⟩
  intro place mark member
  rcases holds place mark member with ⟨index, child, rest, isPlace, isChild, _⟩
  exact ⟨index, rest, (List.getElem?_eq_some_iff.mp isChild).1, isPlace⟩

end State

end CrossRef
