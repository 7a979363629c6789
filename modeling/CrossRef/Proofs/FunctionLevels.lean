import CrossRef.Proofs.Bookkeeping
import CrossRef.Proofs.Scopes

/-!
# Walks follow scopes

A walk that comes off keeps its indentation and its function level as a scope does, and it shows the
boundaries of functions that the scope predicts: a function definition outside any other notes a
definition for its name, a dedent at the level of the function adds an end to the line, and no other
visit does either.  Which names are written as definitions is told by the text of the symbols with
that mark.
-/

namespace CrossRef

namespace Item

/-- The name of a symbol with the mark of a definition. -/
def definitionName : Item → String
  | .symbol (some .definition) name => name
  | _ => ""

/-- The names of the definitions among some items, put together. -/
def definitionNames (items : List Item) : String :=
  String.join (items.map definitionName)

theorem definitionNames_append (first second : List Item) :
    definitionNames (first ++ second) = definitionNames first ++ definitionNames second := by
  simp [definitionNames]

theorem definitionNames_filter (items : List Item) :
    definitionNames (items.filter isSymbol) = definitionNames items :=
  join_filter (fun _ => rfl) items

theorem merge_definitionName {first second merged : Item} (joined : first.merge second = .ok merged) :
    merged.definitionName = first.definitionName ++ second.definitionName := by
  cases merge_merges joined with
  | symbols mark name more =>
      rcases mark with _ | mark
      · rfl
      · cases mark <;> rfl
  | texts text more => rfl

end Item

theorem Line.Adds.definitionNames {line longer : Line} {item : Item} (adds : line.Adds item longer) :
    Item.definitionNames longer.items = Item.definitionNames line.items ++ item.definitionName :=
  adds.join (fun _ => rfl) Item.merge_definitionName

namespace Element

/-- A definition that starts with a word and a name. -/
def Declared (node : Element) : Prop :=
  ∃ kind word name rest, node = .node (kind :: word :: name :: rest) ∧
    word.isOfKind Kind.name = true ∧ name.isOfKind Kind.name = true

end Element

namespace State

def scope (state : State) : Scope :=
  ⟨state.indentation, state.functionLevel⟩

/-- The places that a definition is noted for. -/
def definitions (state : State) : List Path :=
  state.marks.filterMap fun entry =>
    match entry.2 with
    | .known .definition => some entry.1
    | _ => none

/-- The boundaries of functions that show in the states around a visit: the definitions that are
noted, and the ends of functions that are written. -/
def boundaries (before : State) (path : Path) (after : State) : List Boundary :=
  (after.definitions.filter fun place => !before.definitions.contains place).map (.opens path) ++
    List.replicate (Item.ends after.allSymbols - Item.ends before.allSymbols) (.closes path)

/-- The text of the definitions written so far. -/
def definitionText (state : State) : String :=
  Item.definitionNames state.allSymbols

/-- The name that a terminal writes as a definition when it is met in the given state. -/
def definedName (state : State) (path : Path) (node : Element) : String :=
  match state.labelAt? path with
  | some (.known .definition) =>
    if node.isOfKind Kind.name || node.isOfKind Kind.dot then node.wording else ""
  | _ => ""

/-- What a walk keeps in order: its labels are marks that constructs note, and its line knows whether
it holds a symbol. -/
structure Regular (state : State) : Prop where
  onlyNotes : state.OnlyNotes
  honestLine : state.HonestLine

variable {settings : Settings} {before after : State} {path : Path} {node : Element} {number : Int}

theorem regular_empty : ({} : State).Regular := by
  refine ⟨onlyNotes_empty, ?_⟩
  rintro line isLine
  cases isLine
  rfl

theorem Passes.regular (passes : before.Passes settings path node after) (regular : before.Regular) :
    after.Regular :=
  ⟨passes.onlyNotes regular.onlyNotes, (passes.gains regular.onlyNotes regular.honestLine).honest⟩

theorem mem_definitions {state : State} {place : Path} :
    place ∈ state.definitions ↔ (place, .known .definition) ∈ state.marks := by
  unfold definitions
  rw [List.mem_filterMap]
  constructor
  · rintro ⟨⟨other, label⟩, member, found⟩
    split at found
    next isDefinition =>
      cases found
      simp only at isDefinition
      rwa [isDefinition] at member
    next => cases found
  · intro member
    exact ⟨_, member, rfl⟩

theorem mem_definitions_of_label {place : Path}
    (held : before.labelAt? place = some (.known .definition)) : place ∈ before.definitions := by
  rw [mem_definitions]
  unfold labelAt? at held
  rcases List.lookup_eq_some_iff.mp held with ⟨early, late, isSplit, _⟩
  simp [isSplit]

/-- A visit that notes no definition can only show ends of functions. -/
theorem boundaries_of_subset (fewer : ∀ place ∈ after.definitions, place ∈ before.definitions) :
    before.boundaries path after =
      List.replicate (Item.ends after.allSymbols - Item.ends before.allSymbols) (.closes path) := by
  have nothingNew :
      (after.definitions.filter fun place => !before.definitions.contains place) = [] := by
    apply List.filter_eq_nil_iff.mpr
    intro place member
    simpa using fewer place member
  unfold boundaries
  rw [nothingNew]
  rfl

/-! ## Constructs -/

/-- Only a function definition notes definitions. -/
theorem isFunction_of_definition {grammar : Grammar}
    (notes : Mark.definition ∈ (node.constructIn grammar).marks) : node.isFunction grammar = true := by
  have onlyFunctions (construct : Construct) (notes : Mark.definition ∈ construct.marks) :
      construct = .functionDefinition := by
    cases construct <;> first | rfl | exact absurd notes (by decide)
  have isDefinition := onlyFunctions _ notes
  cases hasKind : node.kind with
  | error fault => simp [Element.constructIn, hasKind] at isDefinition
  | ok kind =>
      rw [Element.constructIn_eq hasKind] at isDefinition
      unfold Element.isFunction
      rw [Element.isOfKind_eq hasKind]
      have isNumber := Grammar.isNumberIn_of_constructOf isDefinition (by decide)
      simpa [Construct.kinds] using isNumber

theorem visitConstruct_function (version : settings.grammar ∈ Grammar.versions)
    (isFunction : node.isFunction settings.grammar = true) :
    before.visitConstruct settings path node =
      before.takeAll settings.grammar
        (if before.functionLevel = -1 then Plan.functionDefinition settings.grammar path node
        else []) := by
  rcases Element.exists_kind isFunction with ⟨kind, hasKind, _⟩
  unfold visitConstruct
  rw [Plan.construct_eq hasKind, Grammar.constructIn_of_isOfKind isFunction,
    Grammar.constructOf_functionDefinition version]
  rfl

theorem takeAll_demand {grammar : Grammar} {verdict : Verdict} {plan : Plan}
    (taken : before.takeAll grammar (.demand verdict :: plan) = ⟨after, none⟩) :
    before.takeAll grammar plan = ⟨after, none⟩ := by
  rcases verdict with fault | _ | _
  · cases taken
  · cases taken
  · exact taken

/-- A terminal that gets a mark had none. -/
theorem takeAll_mark {grammar : Grammar} {place : Path} {terminal : Element} {mark : Mark}
    (taken : before.takeAll grammar [.mark place terminal mark] = ⟨after, none⟩) :
    before.labelAt? place = none ∧
      after = { before with marks := before.marks ++ [(place, .known mark)] } := by
  simp only [takeAll, take, setMark] at taken
  split at taken
  next next marked =>
    cases taken
    split at marked
    next => cases marked
    next unmarked =>
      split at marked
      next => cases marked
      next =>
        split at marked
        next =>
          cases marked
          exact ⟨by simpa using unmarked, rfl⟩
        next => cases marked
  next => cases taken

/-- A function inside another is passed over. -/
theorem visitConstruct_inside (version : settings.grammar ∈ Grammar.versions)
    (isFunction : node.isFunction settings.grammar = true) (inside : before.functionLevel ≠ -1) :
    before.visitConstruct settings path node = ⟨before, none⟩ := by
  rw [visitConstruct_function version isFunction, if_neg inside]
  rfl

/-- A function outside any other notes a definition for its name, which had no note. -/
theorem visitConstruct_outside (version : settings.grammar ∈ Grammar.versions)
    (isFunction : node.isFunction settings.grammar = true) (declared : node.Declared)
    (outside : before.functionLevel = -1)
    (visited : before.visitConstruct settings path node = ⟨after, none⟩) :
    before.labelAt? (path ++ [2]) = none ∧
      after =
        { before with
          functionLevel := before.indentation
          marks := before.marks ++ [(path ++ [2], .known .definition)] } := by
  rcases declared with ⟨kind, word, name, rest, rfl, isWord, isName⟩
  rw [visitConstruct_function version isFunction, if_pos outside] at visited
  have firstEntry : (Element.node (kind :: word :: name :: rest)).entry 1 = .ok word :=
    Element.entry_of_getElem? 1 rfl
  have secondEntry : (Element.node (kind :: word :: name :: rest)).entry 2 = .ok name :=
    Element.entry_of_getElem? 2 rfl
  have undecorated : (Element.node (kind :: word :: name :: rest)).kindIs [1]
      settings.grammar.decorators = .ok false := by
    have notDecorators : word.isOfKind settings.grammar.decorators = false := by
      apply Element.not_isOfKind isWord
      rcases Grammar.mem_versions.mp version with isVersion | isVersion | isVersion <;>
        rw [isVersion] <;> decide
    rcases Element.exists_kind isWord with ⟨found, hasKind, _⟩
    rw [Element.isOfKind_eq hasKind] at notDecorators
    unfold Element.kind at hasKind
    simp [Element.kindIs, Element.asks, Element.follow, firstEntry, hasKind, notDecorators]
  have named : Plan.markAt path (Element.node (kind :: word :: name :: rest)) [2] .definition =
      [.mark (path ++ [2]) name .definition] := by
    have isPlace : Element.place? (kind :: word :: name :: rest).length 2 = some 2 :=
      Tree.place_of_lt (by simp)
    simp only [Plan.markAt, Element.locate, secondEntry, Element.elements, isPlace, Option.getD_some]
  simp only [Plan.functionDefinition, Plan.branch, undecorated, Plan.functionName, Int.reduceAdd,
    named] at visited
  exact takeAll_mark (takeAll_demand visited)

theorem boundaries_outside {place : Path} {level : Int} (unmarked : before.labelAt? place = none) :
    before.boundaries path
      { before with functionLevel := level, marks := before.marks ++ [(place, .known .definition)] } =
        [.opens path place] := by
  have grown : State.definitions
      { before with functionLevel := level, marks := before.marks ++ [(place, .known .definition)] } =
        before.definitions ++ [place] := by
    simp [definitions]
  have old : (before.definitions.filter fun place => !before.definitions.contains place) = [] := by
    apply List.filter_eq_nil_iff.mpr
    intro place member
    simpa using member
  have fresh : before.definitions.contains place = false := by
    cases noted : before.definitions.contains place with
    | false => rfl
    | true =>
        have member := mem_definitions.mp (List.contains_iff_mem.mp noted)
        exact absurd rfl (forall_ne_of_unlabelled unmarked _ member)
  have written : Item.ends (State.allSymbols
      { before with functionLevel := level, marks := before.marks ++ [(place, .known .definition)] }) =
        Item.ends before.allSymbols := rfl
  unfold boundaries
  rw [grown, written, List.filter_append, old, Nat.sub_self, List.nil_append,
    List.filter_cons_of_pos (by rw [fresh]; rfl)]
  rfl

/-- A construct leads to the scope behind it and makes the boundaries that belong to it. -/
theorem visitConstruct_follows (version : settings.grammar ∈ Grammar.versions)
    (declared : node.isFunction settings.grammar = true → node.Declared)
    (isConstruct : node.isConstruct = .ok true)
    (visited : before.visitConstruct settings path node = ⟨after, none⟩) :
    after.scope = before.scope.enter settings.grammar node ∧
      before.boundaries path after = before.scope.boundaries settings.grammar path node := by
  cases isFunction : node.isFunction settings.grammar with
  | true =>
      by_cases outside : before.functionLevel = -1
      · rcases visitConstruct_outside version isFunction (declared isFunction) outside visited with
          ⟨unmarked, rfl⟩
        constructor
        · simp [scope, Scope.enter, isFunction, outside]
        · rw [boundaries_outside unmarked]
          simp [scope, Scope.boundaries, isFunction, outside]
      · rw [visitConstruct_inside version isFunction outside] at visited
        cases visited
        constructor
        · simp [scope, Scope.enter, isFunction, outside]
        · rw [boundaries_of_subset fun _ => id, Nat.sub_self]
          simp [scope, Scope.boundaries, isFunction, outside]
  | false =>
      have noDefinition : Mark.definition ∉ (node.constructIn settings.grammar).marks := by
        intro notes
        simp [isFunction_of_definition notes] at isFunction
      have foresees := visitConstruct_foresees (Grammar.test_mem_targets version) before path node
      have page := before.visitConstruct_samePage settings path node
      rw [visited] at foresees page
      have sameLevel : after.functionLevel = before.functionLevel :=
        foresees.functionLevel noDefinition
      have sameDepth : after.indentation = before.indentation := page.indentation
      have symbols : after.allSymbols = before.allSymbols := allSymbols_of_samePage page
      have notIndent := Element.not_isOfKind_of_isConstruct isConstruct Kind.indent (by decide)
      have notDedent := Element.not_isOfKind_of_isConstruct isConstruct Kind.dedent (by decide)
      have flat := Element.deepening_of_other notIndent notDedent
      constructor
      · simp [scope, Scope.enter, isFunction, notDedent, flat, sameDepth, sameLevel]
      · have fewer : ∀ place ∈ after.definitions, place ∈ before.definitions := by
          intro place member
          rcases foresees.marked _ (mem_definitions.mp member) with old | ⟨⟨mark, inMarks, isMark⟩, _⟩
          · exact mem_definitions.mpr old
          · cases isMark
            exact absurd inMarks noDefinition
        rw [boundaries_of_subset fewer, symbols, Nat.sub_self]
        simp [scope, Scope.boundaries, isFunction, notDedent]

/-! ## Terminals -/

theorem flush_scope (state : State) : state.flush.scope = state.scope := by
  unfold flush
  split
  · rfl
  · split <;> rfl

theorem commit_scope {next : Element} (committed : before.commit next = ⟨after, none⟩) :
    after.scope = before.scope := by
  rcases commit_cases committed with ⟨line, _, rfl⟩ | rfl
  · exact before.flush_scope
  · exact before.flush_scope

theorem turnTo_scope {line : Line} (turned : before.turnTo line number node = ⟨after, none⟩) :
    after.scope = before.scope := by
  rcases turnTo_cases turned with ⟨_, _, committed⟩ | ⟨_, rfl⟩
  · exact commit_scope committed
  · rfl

theorem addItem_scope {item : Item} (added : before.addItem item = ⟨after, none⟩) :
    after.scope = before.scope := by
  rcases addItem_cases added with ⟨line, longer, _, _, rfl⟩
  rfl

theorem takeAll_add_scope {grammar : Grammar} {items : List Item}
    (added : before.takeAll grammar (items.map .add) = ⟨after, none⟩) :
    after.scope = before.scope := by
  induction items generalizing before with
  | nil =>
      cases added
      rfl
  | cons item rest ih =>
      rcases takeAll_add_cons added with ⟨middle, taken, others⟩
      exact (ih others).trans (addItem_scope taken)

/-- A terminal leads to the scope behind it. -/
theorem Reads.scope {grammar : Grammar} (notFunction : node.isFunction grammar = false)
    (reads : Reads settings before path node number after) :
    after.scope = before.scope.enter grammar node := by
  have still (kind : Nat) (isKind : node.isOfKind kind = true) (notIndent : kind ≠ Kind.indent)
      (notDedent : kind ≠ Kind.dedent) : before.scope.enter grammar node = before.scope := by
    have away := Element.not_isOfKind isKind Kind.dedent notDedent
    simp [Scope.enter, notFunction, away,
      Element.deepening_of_other (Element.not_isOfKind isKind Kind.indent notIndent) away]
  cases reads with
  | dedent isDedent went =>
      have shallower := Element.deepening_of_dedent isDedent
      rcases dedent_cases went with ⟨reached, added⟩ | ⟨goesOn, rfl⟩
      · have ends : before.indentation + -1 = before.functionLevel := reached
        rw [addItem_scope added]
        simpa [State.scope, Scope.enter, notFunction, isDedent, shallower, ends] using reached
      · have away : ¬ before.indentation + -1 = before.functionLevel := goesOn
        simp [State.scope, Scope.enter, notFunction, isDedent, shallower, away, Int.sub_eq_add_neg]
  | newline line opened isNewline turned =>
      rw [still Kind.newline isNewline (by decide) (by decide)]
      exact turnTo_scope turned
  | indent line middle opened isIndent turned went =>
      have notDedent := Element.not_isOfKind isIndent Kind.dedent (by decide)
      have same := turnTo_scope turned
      rw [went, ← same]
      simp [State.scope, Scope.enter, notFunction, notDedent, Element.deepening_of_indent isIndent]
  | finish line middle opened isEnd turned ended =>
      rw [still Kind.endMarker isEnd (by decide) (by decide)]
      exact (commit_scope ended).trans (turnTo_scope turned)
  | marked line middle mark opened canHold held noEnd present turned added =>
      have here : before.scope.enter grammar node = before.scope := by
        rcases canHold with isName | isDot
        · exact still Kind.name isName (by decide) (by decide)
        · exact still Kind.dot isDot (by decide) (by decide)
      have same : middle.scope = before.scope := turnTo_scope turned
      rw [here]
      exact (addItem_scope added).trans same
  | written line middle items opened notDedent writes turned added =>
      have here : before.scope.enter grammar node = before.scope := by
        cases writes with
        | quoted isString wanted found => exact still Kind.string isString (by decide) (by decide)
        | string isString unwanted present => exact still Kind.string isString (by decide) (by decide)
        | keyword isName unmarked reserved present =>
            exact still Kind.name isName (by decide) (by decide)
        | name isName unmarked free present => exact still Kind.name isName (by decide) (by decide)
        | other notNewline notIndent notString notName unmarked notEnd present =>
            simp [Scope.enter, notFunction, notDedent, Element.deepening_of_other notIndent notDedent]
      rw [here]
      exact (takeAll_add_scope added).trans (turnTo_scope turned)

/-- A terminal makes the boundaries that belong to it. -/
theorem Reads.boundaries {grammar : Grammar} (notFunction : node.isFunction grammar = false)
    (reads : Reads settings before path node number after) (honest : before.HonestLine) :
    before.boundaries path after = before.scope.boundaries grammar path node := by
  have fewer : ∀ place ∈ after.definitions, place ∈ before.definitions := by
    intro place member
    exact mem_definitions.mpr (reads.marks_subset _ (mem_definitions.mp member))
  rw [boundaries_of_subset fewer, (reads.gains honest).ends, Nat.add_sub_cancel_left]
  cases isDedent : node.isOfKind Kind.dedent with
  | true =>
      have shallower := Element.deepening_of_dedent isDedent
      by_cases reached : before.indentation - 1 = before.functionLevel
      · have back : before.indentation + -1 = before.functionLevel := reached
        simp [State.endsFunction, State.scope, Scope.boundaries, notFunction, isDedent, shallower,
          reached, back]
      · have away : ¬ before.indentation + -1 = before.functionLevel := reached
        simp [State.endsFunction, State.scope, Scope.boundaries, notFunction, isDedent, shallower,
          reached, away]
  | false => simp [State.endsFunction, Scope.boundaries, notFunction, isDedent]

/-! ## Names of definitions -/

theorem addItem_definitionText {item : Item} (added : before.addItem item = ⟨after, none⟩) :
    after.definitionText = before.definitionText ++ item.definitionName := by
  rcases addItem_cases added with ⟨line, longer, opened, lengthened, rfl⟩
  have adds := (Line.add_adds lengthened).definitionNames
  simp only [definitionText, allSymbols, opened, Option.map_some, Option.getD_some,
    Item.definitionNames_append]
  simp [symbols, Line.symbols, Item.definitionNames_filter, adds, String.append_assoc]

theorem takeAll_add_definitionText {grammar : Grammar} {items : List Item}
    (added : before.takeAll grammar (items.map .add) = ⟨after, none⟩) :
    after.definitionText = before.definitionText ++ Item.definitionNames items := by
  induction items generalizing before with
  | nil =>
      cases added
      simp [Item.definitionNames]
  | cons item rest ih =>
      rcases takeAll_add_cons added with ⟨middle, taken, others⟩
      rw [ih others, addItem_definitionText taken]
      simp [Item.definitionNames, String.append_assoc]

theorem turnTo_definitionText {line : Line} (honest : before.HonestLine)
    (turned : before.turnTo line number node = ⟨after, none⟩) :
    after.definitionText = before.definitionText := by
  unfold definitionText
  rw [(turnTo_allSymbols honest turned).1]

/-- A name that is written as a definition is that of a terminal which is marked so. -/
theorem labelled_of_definedName (nonempty : before.definedName path node ≠ "") :
    before.labelAt? path = some (.known .definition) ∧
      node.wording = before.definedName path node := by
  unfold definedName at nonempty ⊢
  split
  next held =>
    rw [held] at nonempty
    simp only [ne_eq, ite_eq_right_iff, not_forall] at nonempty
    exact ⟨held, (if_pos nonempty.1).symm⟩
  next => simp at nonempty

theorem definedName_eq_empty
    (unused : node.isOfKind Kind.name = false ∧ node.isOfKind Kind.dot = false ∨
      before.labelAt? path = none) : before.definedName path node = "" := by
  unfold definedName
  rcases unused with ⟨notName, notDot⟩ | unlabelled
  · split
    · simp [notName, notDot]
    · rfl
  · simp [unlabelled]

/-- What a terminal without a mark writes holds no definition, and it has none to write. -/
theorem Writes.definitionNames {items : List Item} (writes : Writes settings before path node items) :
    Item.definitionNames items = "" ∧ before.definedName path node = "" := by
  cases writes with
  | quoted isString wanted found | string isString unwanted present =>
      exact ⟨rfl, definedName_eq_empty (Or.inl ⟨Element.not_isOfKind isString _ (by decide),
        Element.not_isOfKind isString _ (by decide)⟩)⟩
  | keyword isName unmarked reserved present | name isName unmarked free present =>
      exact ⟨rfl, definedName_eq_empty (Or.inr unmarked)⟩
  | other notNewline notIndent notString notName unmarked notEnd present =>
      refine ⟨rfl, definedName_eq_empty ?_⟩
      cases isDot : node.isOfKind Kind.dot with
      | true => exact Or.inr (unmarked isDot)
      | false => exact Or.inl ⟨notName, rfl⟩

/-- A terminal adds to the definitions the name that it is said to write as one. -/
theorem Reads.definitionText (reads : Reads settings before path node number after)
    (honest : before.HonestLine) :
    after.definitionText = before.definitionText ++ before.definedName path node := by
  have silent {kind : Nat} (isKind : node.isOfKind kind = true) (notName : kind ≠ Kind.name)
      (notDot : kind ≠ Kind.dot) : before.definedName path node = "" :=
    definedName_eq_empty
      (Or.inl ⟨Element.not_isOfKind isKind _ notName, Element.not_isOfKind isKind _ notDot⟩)
  cases reads with
  | dedent isDedent went =>
      rw [silent isDedent (by decide) (by decide), String.append_empty]
      rcases dedent_cases went with ⟨_, added⟩ | ⟨_, rfl⟩
      · exact (addItem_definitionText added).trans String.append_empty
      · rfl
  | newline line opened isNewline turned =>
      rw [silent isNewline (by decide) (by decide), String.append_empty]
      exact turnTo_definitionText honest turned
  | indent line middle opened isIndent turned went =>
      have kept : middle.definitionText = before.definitionText := turnTo_definitionText honest turned
      rw [silent isIndent (by decide) (by decide), String.append_empty, went]
      exact kept
  | finish line middle opened isEnd turned ended =>
      rw [silent isEnd (by decide) (by decide), String.append_empty,
        ← turnTo_definitionText honest turned]
      unfold State.definitionText
      rw [(commit_allSymbols (turnTo_allSymbols honest turned).2 ended).1]
  | marked line middle mark opened canHold held noEnd present turned added =>
      have kept : middle.definitionText = before.definitionText := turnTo_definitionText honest turned
      have uses : (node.isOfKind Kind.name || node.isOfKind Kind.dot) = true := by simpa using canHold
      have unmarked : (middle.dropMark path).definitionText = middle.definitionText := rfl
      rw [addItem_definitionText added, unmarked, kept]
      unfold definedName
      rw [held]
      cases mark <;> simp [Item.definitionName, uses]
  | written line middle items opened notDedent writes turned added =>
      rw [takeAll_add_definitionText added, turnTo_definitionText honest turned,
        writes.definitionNames.1, writes.definitionNames.2]

theorem Passes.definitionText (passes : before.Passes settings path node after)
    (regular : before.Regular) :
    after.definitionText = before.definitionText ++ before.definedName path node := by
  cases passes with
  | construct isConstruct visited =>
      have page := before.visitConstruct_samePage settings path node
      rw [visited] at page
      have silent : before.definedName path node = "" := definedName_eq_empty
        (Or.inl ⟨Element.not_isOfKind_of_isConstruct isConstruct _ (by decide),
          Element.not_isOfKind_of_isConstruct isConstruct _ (by decide)⟩)
      have kept : after.allSymbols = before.allSymbols := allSymbols_of_samePage page
      simp [State.definitionText, silent, kept]
  | terminal number isTerminal numbered visited =>
      exact (visitTerminal_reads regular.onlyNotes visited).definitionText regular.honestLine

/-- A name that is passed is not empty. -/
theorem Passes.wording_of_name (passes : before.Passes settings path node after)
    (regular : before.Regular) (isName : node.isOfKind Kind.name = true) : node.wording ≠ "" := by
  have other (kind : Nat) (different : Kind.name ≠ kind) := Element.not_isOfKind isName kind different
  cases passes with
  | construct isConstruct visited =>
      simp [Element.not_isOfKind_of_isConstruct isConstruct Kind.name (by decide)] at isName
  | terminal number isTerminal numbered visited =>
      cases visitTerminal_reads regular.onlyNotes visited with
      | dedent isDedent went => simp [other Kind.dedent (by decide)] at isDedent
      | newline line opened isNewline turned => simp [other Kind.newline (by decide)] at isNewline
      | indent line middle opened isIndent turned went =>
          simp [other Kind.indent (by decide)] at isIndent
      | finish line middle opened isEnd turned ended =>
          simp [other Kind.endMarker (by decide)] at isEnd
      | marked line middle mark opened canHold held noEnd present turned added => exact present
      | written line middle items opened notDedent writes turned added =>
          cases writes with
          | quoted isString wanted found | string isString unwanted present =>
              simp [other Kind.string (by decide)] at isString
          | keyword isName unmarked reserved present => exact present
          | name isName unmarked free present => exact present
          | other notNewline notIndent notString notName unmarked notEnd present => exact present

/-! ## Visits one after the other -/

/-- A visit that comes off leads to the scope behind the node and makes the boundaries that belong to
it. -/
theorem Passes.follows (version : settings.grammar ∈ Grammar.versions)
    (declared : node.isFunction settings.grammar = true → node.Declared)
    (passes : before.Passes settings path node after) (regular : before.Regular) :
    after.scope = before.scope.enter settings.grammar node ∧
      before.boundaries path after = before.scope.boundaries settings.grammar path node := by
  cases passes with
  | construct isConstruct visited =>
      exact visitConstruct_follows version declared isConstruct visited
  | terminal number isTerminal numbered visited =>
      have reads := visitTerminal_reads regular.onlyNotes visited
      have notFunction : node.isFunction settings.grammar = false := by
        cases isFunction : node.isFunction settings.grammar with
        | false => rfl
        | true =>
            rw [Grammar.isConstruct_of_isFunction version isFunction] at isTerminal
            cases isTerminal
      exact ⟨reads.scope notFunction, reads.boundaries notFunction regular.honestLine⟩

/-- A chain of visits through some nodes, listed as their places between the states around them. -/
inductive Tracks (settings : Settings) :
    State → List (Path × Element) → List (State × Path × State) → State → Prop where
  | nil (state : State) : Tracks settings state [] [] state
  | cons {before middle after : State} {path : Path} {node : Element}
      {rest : List (Path × Element)} {steps : List (State × Path × State)}
      (first : before.Passes settings path node middle)
      (others : Tracks settings middle rest steps after) :
      Tracks settings before ((path, node) :: rest) ((before, path, middle) :: steps) after

/-- The boundaries of functions that show along some visits. -/
def boundariesAlong (steps : List (State × Path × State)) : List Boundary :=
  steps.flatMap fun (before, path, after) => before.boundaries path after

variable {start middle finish : State} {nodes : List (Path × Element)}
  {steps : List (State × Path × State)}

theorem Tracks.regular (tracks : Tracks settings start nodes steps finish) (regular : start.Regular) :
    finish.Regular := by
  induction tracks with
  | nil state => exact regular
  | cons first others ih => exact ih (first.regular regular)

theorem Tracks.split {early late : List (Path × Element)}
    (tracks : Tracks settings start (early ++ late) steps finish) :
    ∃ first middle second, steps = first ++ second ∧ Tracks settings start early first middle ∧
      Tracks settings middle late second finish := by
  induction early generalizing start steps with
  | nil => exact ⟨[], start, steps, rfl, .nil start, tracks⟩
  | cons entry early ih =>
      cases tracks with
      | cons passes others =>
          rcases ih others with ⟨first, middle, second, rfl, former, latter⟩
          exact ⟨_, middle, second, rfl, .cons passes former, latter⟩

/-- Along a chain of visits the scopes of the states lead through the nodes, and the boundaries that
show are those that the nodes make. -/
theorem Tracks.leads (version : settings.grammar ∈ Grammar.versions)
    (tracks : Tracks settings start nodes steps finish)
    (declared : ∀ entry ∈ nodes, entry.2.isFunction settings.grammar = true → entry.2.Declared)
    (regular : start.Regular) :
    Scope.Leads settings.grammar start.scope nodes (boundariesAlong steps) finish.scope := by
  induction tracks with
  | nil state => exact .nil state.scope
  | cons first others ih =>
      rcases first.follows version (declared _ List.mem_cons_self) regular with ⟨enters, makes⟩
      refine Scope.Leads.step enters.symm makes.symm (ih ?_ (first.regular regular))
      intro entry member
      exact declared entry (List.mem_cons_of_mem _ member)

/-- What is noted as a definition along some visits was noted at their start, or a function that
begins there has noted it. -/
theorem Tracks.noted (tracks : Tracks settings start nodes steps finish) {step : State × Path × State}
    (member : step ∈ steps) {place : Path} (noted : place ∈ step.1.definitions) :
    place ∈ start.definitions ∨ ∃ function, .opens function place ∈ boundariesAlong steps := by
  induction tracks with
  | nil state => cases member
  | @cons before middle after path node rest steps first others ih =>
      rcases List.mem_cons.mp member with rfl | later
      · exact Or.inl noted
      · rcases ih later with inMiddle | ⟨function, opens⟩
        · by_cases old : place ∈ before.definitions
          · exact Or.inl old
          · right
            refine ⟨path, List.mem_append_left _ (List.mem_append_left _ ?_)⟩
            exact List.mem_map.mpr ⟨place, List.mem_filter.mpr ⟨inMiddle, by simpa using old⟩, rfl⟩
        · exact Or.inr ⟨function, List.mem_append_right _ opens⟩

theorem Tracks.exists_node (tracks : Tracks settings start nodes steps finish)
    (regular : start.Regular) {step : State × Path × State} (member : step ∈ steps) :
    ∃ node, (step.2.1, node) ∈ nodes ∧
      step.2.2.definitionText = step.1.definitionText ++ step.1.definedName step.2.1 node := by
  induction tracks with
  | nil state => cases member
  | cons first others ih =>
      rcases List.mem_cons.mp member with rfl | later
      · exact ⟨_, List.mem_cons_self, first.definitionText regular⟩
      · rcases ih (first.regular regular) later with ⟨node, inRest, grown⟩
        exact ⟨node, List.mem_cons_of_mem _ inRest, grown⟩

/-- A function outside any other has its name written as a definition, two visits later. -/
theorem Tracks.name_written (version : settings.grammar ∈ Grammar.versions) {function : Path}
    {kind word name : Element} {rest : List Element} {late : List (Path × Element)}
    (tracks : Tracks settings start ((function, .node (kind :: word :: name :: rest)) ::
      (function ++ [1], word) :: (function ++ [2], name) :: late) steps finish)
    (isFunction : (Element.node (kind :: word :: name :: rest)).isFunction settings.grammar = true)
    (isWord : word.isOfKind Kind.name = true) (isName : name.isOfKind Kind.name = true)
    (regular : start.Regular) (outside : start.functionLevel = -1) :
    name.wording ≠ "" ∧ ∃ before after, (before, function ++ [2], after) ∈ steps ∧
      after.definitionText = before.definitionText ++ name.wording := by
  cases tracks with
  | @cons _ opened _ _ _ _ _ first others =>
      have openedRegular := first.regular regular
      have noted : opened.labelAt? (function ++ [2]) = some (.known .definition) := by
        cases first with
        | construct isConstruct visited =>
            rcases visitConstruct_outside version isFunction
              ⟨kind, word, name, rest, rfl, isWord, isName⟩ outside visited with ⟨unmarked, rfl⟩
            have label := start.labelAt?_append (function ++ [2]) (function ++ [2]) (.known .definition)
            rw [unmarked, if_pos rfl] at label
            exact label
        | terminal number isTerminal numbered visited =>
            rw [Grammar.isConstruct_of_isFunction version isFunction] at isTerminal
            cases isTerminal
      cases others with
      | @cons _ middle _ _ _ _ _ second others =>
          have middleRegular := second.regular openedRegular
          have kept : middle.labelAt? (function ++ [2]) = some (.known .definition) := by
            cases second with
            | construct isConstruct visited =>
                rw [Element.not_isOfKind_of_isConstruct isConstruct Kind.name (by decide)] at isWord
                cases isWord
            | terminal number isTerminal numbered visited =>
                rcases (visitTerminal_reads openedRegular.onlyNotes visited).sameNotes with same | same
                · unfold labelAt? at noted ⊢
                  rwa [same.marks]
                · have label := opened.labelAt?_dropMark (function ++ [1]) (function ++ [2])
                  rw [if_neg (by simp), noted] at label
                  unfold labelAt? at label ⊢
                  rwa [same.marks]
          cases others with
          | cons third others =>
              have grown := third.definitionText middleRegular
              simp only [definedName, kept, isName, Bool.true_or, if_true] at grown
              exact ⟨third.wording_of_name middleRegular isName, middle, _, by simp, grown⟩

end State

namespace Walk

/-- The visits of a walk that started in the given state: their places between the states around
them. -/
def steps (walk : Walk) (start : State) : List (State × Path × State) :=
  (start :: walk.visits.toList.map (·.2)).zip walk.visits.toList

/-- A visit of a walk writes a name as a definition. -/
def Defines (walk : Walk) (start : State) (place : Path) (name : String) : Prop :=
  name ≠ "" ∧ ∃ before after, (before, place, after) ∈ walk.steps start ∧
    after.definitionText = before.definitionText ++ name

variable {settings : Settings}

theorem visitEach_tracks {nodes : List (Path × Element)} {walk : Walk}
    (sound : (visitEach settings walk nodes).fault = none) :
    ∃ trace : List (Path × State),
      (visitEach settings walk nodes).visits.toList = walk.visits.toList ++ trace ∧
      State.Tracks settings walk.state nodes ((walk.state :: trace.map (·.2)).zip trace)
        (visitEach settings walk nodes).state := by
  induction nodes generalizing walk with
  | nil => exact ⟨[], by simp [visitEach], .nil walk.state⟩
  | cons entry rest ih =>
      rcases entry with ⟨path, node⟩
      rcases visitEach_cons sound with ⟨firstSound, goesOn⟩
      rcases visit_passes firstSound with ⟨passes, recorded⟩
      rw [goesOn] at sound ⊢
      rcases ih sound with ⟨trace, grown, tracks⟩
      refine ⟨(path, (walk.visit settings path node).state) :: trace, ?_, .cons passes tracks⟩
      rw [grown, recorded]
      simp

/-- A walk that comes to its end is a chain of visits through the tree in the order of reading. -/
theorem below_tracks {state : State} {path : Path} {node : Element}
    (complete : (below settings state path node).fault = none) :
    State.Tracks settings state (node.preorder path) ((below settings state path node).steps state)
      (below settings state path node).state := by
  rw [below_eq_visitEach] at complete ⊢
  unfold steps
  rcases visitEach_tracks complete with ⟨trace, grown, tracks⟩
  rw [grown]
  exact tracks

end Walk

end CrossRef
