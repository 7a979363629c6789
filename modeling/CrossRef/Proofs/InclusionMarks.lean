import CrossRef.Proofs.ModuleSymbols

/-!
# Imports mark their modules

An import statement is met when no modules are left to read, and leaves none.  Of its terminals exactly
the parts of its modules are written with the mark of an inclusion: neither the other name that a module
is given nor the names that are taken from it.  A module on one line is written as one symbol, which
nothing of another module is in.
-/

namespace CrossRef

/-- Every node of a tree that a walk takes for an import is an import statement. -/
def Element.ImportsShaped (tree : Element) : Prop :=
  ∀ entry ∈ tree.preorder [], entry.2.constructIn .version3 ∈ [.importName, .importFrom] →
    ∃ statement : Import, entry.2 = statement.toElement

namespace Import

/-! ## Imports end before others begin -/

/-- Nodes that leave no import unfinished, neither at their end nor where another one begins. -/
structure Balanced (nodes : List (Path × Element)) : Prop where
  settles : ∀ count : ImportCount, count.importing = false →
    (count.passAll .version3 nodes).importing = false
  apart : ∀ count : ImportCount, count.importing = false →
    ∀ early entry late, nodes = early ++ entry :: late →
      entry.2.constructIn .version3 ∈ [.importName, .importFrom] →
        (count.passAll .version3 early).importing = false

theorem balanced_nil : Balanced [] := by
  refine ⟨fun _ settled => settled, ?_⟩
  intro count settled early entry late isSplit
  simp at isSplit

theorem Balanced.append {first second : List (Path × Element)} (former : Balanced first)
    (latter : Balanced second) : Balanced (first ++ second) := by
  constructor
  · intro count settled
    rw [ImportCount.passAll_append]
    exact latter.settles _ (former.settles count settled)
  · intro count settled early entry late isSplit isImport
    rcases List.append_eq_append_iff.mp isSplit with ⟨more, rfl, isSecond⟩ | ⟨more, isFirst, isRest⟩
    · rw [ImportCount.passAll_append]
      exact latter.apart _ (former.settles count settled) more entry late isSecond isImport
    · rcases more with _ | ⟨head, more⟩
      · rw [List.append_nil] at isFirst
        rw [← isFirst]
        exact former.settles count settled
      · cases isRest
        exact former.apart count settled early entry more isFirst isImport

theorem balanced_single {path : Path} {node : Element}
    (noList : node.constructIn .version3 ≠ .importName) : Balanced [(path, node)] := by
  constructor
  · intro count settled
    exact ImportCount.importing_pass settled noList
  · intro count settled early entry late isSplit _
    rcases early with _ | ⟨head, early⟩
    · exact settled
    · simp at isSplit

theorem balanced_agenda {agenda : Agenda}
    (each : ∀ entry ∈ agenda, Balanced (entry.2.preorder entry.1)) : Balanced agenda.preorder := by
  induction agenda with
  | nil => exact balanced_nil
  | cons entry pending ih =>
      rw [List.forall_mem_cons] at each
      exact each.1.append (ih each.2)

/-- A statement that lists modules is finished with its last one. -/
theorem balanced_names (word : Assignment.Token) (first : Module)
    (others : List (Assignment.Token × Module)) (path : Path) :
    Balanced ((names word first others).toElement.preorder path) := by
  constructor
  · intro count _
    rw [passAll_names]
    rfl
  · intro count settled early entry late isSplit isImport
    rcases early with _ | ⟨head, early⟩
    · exact settled
    · have isBelow : entry ∈ ((names word first others).toElement.preorder path).tail := by
        simp [isSplit]
      exact absurd isImport (no_import_below _ path entry isBelow)

theorem balanced_preorder (path : Path) (node : Element)
    (shaped : ∀ entry ∈ node.preorder path,
      entry.2.constructIn .version3 ∈ [.importName, .importFrom] →
        ∃ statement : Import, entry.2 = statement.toElement) :
    Balanced (node.preorder path) := by
  induction path, node using Element.induction_children with
  | below path node ih =>
      by_cases isList : node.constructIn .version3 = .importName
      · rcases shaped _ (Element.self_mem_preorder path node) (by simp [isList]) with
          ⟨statement, isStatement⟩
        simp only at isStatement
        subst isStatement
        cases statement with
        | names word first others => exact balanced_names word first others path
        | fromModule word dots name second tail =>
            rw [constructIn_toElement] at isList
            cases isList
      · rw [Agenda.preorder_children]
        apply (balanced_single isList).append
        apply balanced_agenda
        intro child isChild
        apply ih child isChild
        intro entry member
        exact shaped entry (Element.mem_preorder.mpr (Or.inr ⟨child, isChild, member⟩))

/-! ## Modules are marked -/

open Assignment (Token positioned positioned_cons)

theorem mark_mem_positioned (base : Path) (mark : Mark) {place : Path} {terminal : Element} :
    ∀ (tokens : List (Nat × Token)) (position : Nat),
      (place, terminal) ∈ Element.preorderFrom base position (row tokens) →
      .mark place terminal mark ∈
        (positioned position (row tokens)).map
          fun (position, terminal) => Step.mark (base ++ [position]) terminal mark
  | [], _, member => nomatch member
  | (kind, token) :: rest, position, member => by
      rw [row_cons, Token.preorderFrom] at member
      rw [row_cons, positioned_cons, List.map_cons, List.mem_cons]
      rcases List.mem_cons.mp member with isFirst | later
      · cases isFirst
        exact Or.inl rfl
      · exact Or.inr (mark_mem_positioned base mark rest (position + 1) later)

theorem DottedName.canHold {name : DottedName} {base place : Path} {terminal : Element}
    (inName : (place, terminal) ∈ name.toElement.preorder base)
    (isTerminal : terminal.isTerminal = true) :
    terminal.isOfKindIn [Kind.name, Kind.dot] = true := by
  rw [name.preorder] at inName
  rcases List.mem_cons.mp inName with isName | isPart
  · cases isName
    rw [Element.isTerminal_iff, name.isConstruct] at isTerminal
    cases isTerminal
  · rcases exists_token isPart with ⟨part, inTokens, rfl⟩
    have isKind := DottedName.kind_of_mem_tokens inTokens
    rw [Token.isOfKindIn_toElement]
    simpa using isKind

/-- The terminals of a dotted name are marked if all its parts are. -/
theorem DottedName.mark_mem {name : DottedName} {base place : Path} {terminal : Element}
    (inName : (place, terminal) ∈ name.toElement.preorder base)
    (canHold : terminal.isOfKindIn [Kind.name, Kind.dot] = true) :
    .mark place terminal .inclusion ∈ Plan.markAll base name.toElement .inclusion := by
  rw [Plan.markAll, DottedName.toElement, Assignment.numbered_ofKind]
  rw [name.preorder] at inName
  rcases List.mem_cons.mp inName with isName | isPart
  · cases isName
    have isTerminal := Element.isConstruct_of_canHold canHold
    rw [name.isConstruct] at isTerminal
    cases isTerminal
  · exact mark_mem_positioned base .inclusion name.tokens 1 isPart

theorem construct_ofKind (kind : Nat) (parts : List Element) (state : State) (path : Path) :
    Plan.construct .version3 state path (.ofKind kind parts) =
      Plan.ofConstruct .version3 state path (.ofKind kind parts)
        (Grammar.version3.constructOf (.int kind)) := by
  have hasKind : (Element.ofKind kind parts).kind = .ok (.int kind) := Element.kind_node _ _
  rw [Plan.construct_eq hasKind, constructIn_ofKind]

theorem moduleName_dots (path : Path) (sort : String) (name : DottedName) (rest : List Element) :
    ∀ (dots : List RelativeDot) (position : Nat),
      Plan.moduleName .version3 path sort
          (positioned position (dots.map (fun dot => dot.token.toElement dot.kind) ++
            name.toElement :: rest)) =
        Plan.markAll (path ++ [position + dots.length]) name.toElement .inclusion
  | [], position => by
      rw [List.map_nil, List.nil_append, positioned_cons, Plan.moduleName, DottedName.toElement,
        Element.ofKind, Element.kind_node]
      rfl
  | dot :: dots, position => by
      have isDot : (Element.int dot.kind).isNumberIn Grammar.version3.relativeDots = true :=
        List.any_eq_true.mpr ⟨dot.kind, dot.isDot, by simp⟩
      rw [List.map_cons, List.cons_append, positioned_cons, Plan.moduleName, Token.toElement,
        Element.ofKind, Element.kind_node]
      simp only [isDot, if_true]
      rw [moduleName_dots path sort name rest dots (position + 1), List.length_cons,
        Nat.add_right_comm, Nat.add_assoc]

/-- A statement that takes things from a module marks all parts of its name. -/
theorem importFrom_fromModule (word : Token) (dots : List RelativeDot) (name : DottedName)
    (second : Token) (tail : List Silent) (path : Path) :
    Plan.importFrom .version3 path (fromModule word dots (some name) second tail).toElement =
      Plan.markAll (path ++ [dots.length + 2]) name.toElement .inclusion := by
  have numbered : (fromModule word dots (some name) second tail).toElement.numbered 2 =
      positioned 2 (dots.map (fun dot => dot.token.toElement dot.kind) ++
        name.toElement :: second.toElement Kind.name :: tail.map Silent.tree) := by
    simp [toElement, row, heading, Element.numbered, Element.ofKind, positioned, List.zipIdx_cons, Function.comp_def]
  rw [Plan.importFrom, numbered, moduleName_dots, Nat.add_comm 2]

end Import

namespace Element

/-- What stands on the way from a node to another one below it is a node as well. -/
theorem mem_preorder_of_way {root base : Path} {tree outer child terminal : Element} {position : Nat}
    {rest : Path} (isOuter : (base, outer) ∈ tree.preorder root)
    (isElement : outer.elements[position]? = some child)
    (isTerminal : (base ++ position :: rest, terminal) ∈ tree.preorder root) :
    (base ++ [position], child) ∈ tree.preorder root := by
  have inside := mem_preorder_of_prefix isOuter isTerminal (List.prefix_append _ _)
  rcases mem_preorder.mp inside with isRoot | ⟨entry, isChild, inChild⟩
  · have same := congrArg (fun entry => entry.1.length) isRoot
    simp at same
  · rcases mem_children.mp isChild with ⟨index, inner, isInner, rfl⟩
    have goesOn := prefix_of_mem_preorder inChild
    rw [List.prefix_append_right_inj, List.cons_prefix_cons] at goesOn
    rw [← goesOn.1, isInner] at isElement
    cases isElement
    rw [← goesOn.1]
    exact mem_preorder_trans isOuter (mem_preorder.mpr (Or.inr ⟨_, isChild, self_mem_preorder _ _⟩))

end Element

namespace Walk

variable {settings : Settings} {tree : Element}

/-- What is written with the mark of an inclusion is a part of a dotted name. -/
theorem exists_dottedName (version : settings.grammar ∈ Grammar.versions)
    (complete : (ofTree settings tree).fault = none) {place : Path} {terminal : Element}
    (inTree : (place, terminal) ∈ tree.preorder [])
    (canHold : terminal.isOfKindIn [Kind.name, Kind.dot] = true)
    (shown : (ofTree settings tree).shows .inclusion place = true) :
    ∃ base dotted position, (base, dotted) ∈ tree.preorder [] ∧
      dotted.constructIn settings.grammar = .dottedName ∧ place = base ++ [position] := by
  rcases (shows_iff_noted version complete inTree canHold).mp shown with
    ⟨⟨state, base, outer⟩, isMet, notes⟩
  have isOuter : (base, outer) ∈ tree.preorder [] := by
    rw [← meetings_nodes complete]
    exact List.mem_map_of_mem isMet
  rcases List.append_of_mem isMet with ⟨_, _, met⟩
  rcases labels_of_notes version complete met notes with ⟨isMark, way, isPlace, labels⟩
  generalize sort : outer.constructIn settings.grammar = construct at isMark labels
  cases labels with
  | moduleName index => exact ⟨base, outer, index + 1, isOuter, sort, isPlace⟩
  | @importedModule dotted position isDotted isKind last =>
      rw [isPlace] at inTree
      refine ⟨base ++ [position], dotted, last, ?_, ?_, by simp [isPlace]⟩
      · exact Element.mem_preorder_of_way isOuter isDotted inTree
      · exact (Grammar.constructIn_of_isOfKind isKind).trans (Grammar.constructOf_dottedName version)
  | globalName | functionName | className | primary | decorator =>
      simp [Construct.marks] at isMark

/-- The nodes that a walk has visited tell how far the modules of an import statement have been read. -/
theorem visitEach_importCount (version : settings.grammar ∈ Grammar.versions)
    (complete : (ofTree settings tree).fault = none) {early late : List (Path × Element)}
    (isSplit : tree.preorder [] = early ++ late) :
    (visitEach settings {} early).state.importCount =
      ({} : State).importCount.passAll settings.grammar early := by
  rw [← meetings_nodes complete] at isSplit
  rcases List.map_eq_append_iff.mp isSplit with ⟨first, rest, met, rfl, _⟩
  have passage := passage_ofTree complete
  rw [met] at passage
  rcases passage.of_append with ⟨middle, passage, _⟩
  have sound : ({} : Walk).fault = none := rfl
  rw [(visitEach_of_passage sound passage).2]
  exact passage.importCount version State.onlyNotes_empty

variable {statement : Import} {path base place : Path} {name : Import.DottedName} {terminal : Element}

section Statement

variable (version : settings.grammar = .version3) (complete : (ofTree settings tree).fault = none)
  (inTree : (path, statement.toElement) ∈ tree.preorder [])
include version complete inTree

/-- A list's modules are noted by their dotted names. -/
theorem notes_listed (isModule : (base, name) ∈ statement.modules path)
    (isList : statement.isList = true)
    (noted : .mark place terminal .inclusion ∈ Plan.markAll base name.toElement .inclusion) :
    ∃ meeting ∈ (ofTree settings tree).meetings tree,
      State.Notes settings.grammar meeting place .inclusion := by
  rcases Import.stands_in inTree isModule with ⟨early, front, back, isSplit, _, _, importing⟩
  rw [name.preorder, ← List.append_assoc, List.cons_append] at isSplit
  rcases exists_met complete isSplit with ⟨before, state, late, met, isBefore, _⟩
  rcases passage_of_met complete met with ⟨after, passage, passes, _⟩
  have isImporting : state.importing = true := by
    have count := passage.importCount (version ▸ List.mem_cons_self) State.onlyNotes_empty
    rw [isBefore, version] at count
    have same : state.importing = state.importCount.importing := rfl
    rw [same, count]
    exact importing isList _
  have isPlan : Plan.construct settings.grammar state base name.toElement =
      Plan.dottedName state base name.toElement := by
    rw [version]
    exact Import.construct_ofKind _ _ state base
  refine ⟨(state, base, name.toElement), by simp [met], name.isConstruct, terminal, ?_⟩
  cases passes with
  | terminal number isTerminal =>
      rw [name.isConstruct] at isTerminal
      cases isTerminal
  | construct _ visited =>
      rw [State.visitConstruct, isPlan] at visited
      rw [isPlan]
      unfold Plan.dottedName at visited ⊢
      rw [if_pos isImporting] at visited ⊢
      split at visited
      next enough =>
        rw [if_pos enough]
        exact List.mem_append_left _ noted
      next => exact absurd visited (State.takeAll_fail _ _ _ _)

/-- A walk writes all parts of a module with the mark of an inclusion. -/
theorem shows_of_module (isModule : (base, name) ∈ statement.modules path)
    (inName : (place, terminal) ∈ name.toElement.preorder base)
    (canHold : terminal.isOfKindIn [Kind.name, Kind.dot] = true) :
    (ofTree settings tree).shows .inclusion place = true := by
  have noted := Import.DottedName.mark_mem inName canHold
  have inWhole : (place, terminal) ∈ tree.preorder [] := by
    rcases Import.stands_in inTree isModule with ⟨early, front, back, isSplit, _⟩
    simp [isSplit, inName]
  rw [shows_iff_noted (version ▸ List.mem_cons_self) complete inWhole canHold]
  cases statement with
  | names word first others => exact notes_listed version complete inTree isModule rfl noted
  | fromModule word dots found second tail =>
      rcases List.mem_map.mp isModule with ⟨_, isName, isEntry⟩
      cases isEntry
      rw [Option.mem_toList] at isName
      cases isName
      rw [← meetings_nodes complete, List.mem_map] at inTree
      rcases inTree with ⟨⟨state, _, _⟩, isMet, isStatement⟩
      cases isStatement
      refine ⟨_, isMet, (Import.fromModule word dots (some name) second tail).isConstruct, terminal, ?_⟩
      have isPlan : Plan.construct settings.grammar state path
          (Import.fromModule word dots (some name) second tail).toElement =
            Plan.importFrom .version3 path
              (Import.fromModule word dots (some name) second tail).toElement := by
        rw [version]
        exact Import.construct_ofKind _ _ state path
      rw [isPlan, Import.importFrom_fromModule]
      exact noted

/-- What a walk writes with the mark of an inclusion in an import statement is a part of a module. -/
theorem exists_module_of_shows (inside : (place, terminal) ∈ statement.toElement.preorder path)
    (canHold : terminal.isOfKindIn [Kind.name, Kind.dot] = true)
    (shown : (ofTree settings tree).shows .inclusion place = true) :
    ∃ imported ∈ statement.modules path,
      (place, terminal) ∈ imported.2.toElement.preorder imported.1 := by
  have inWhole := Element.mem_preorder_trans inTree inside
  rcases exists_dottedName (version ▸ List.mem_cons_self) complete inWhole canHold shown with
    ⟨base, dotted, position, isDotted, sort, rfl⟩
  rw [version] at sort
  rcases List.prefix_concat_iff.mp (Element.prefix_of_mem_preorder inside) with isPlace | goesOn
  · -- The statement itself is neither a name nor a dot.
    rw [← isPlace] at inside
    have same := Element.eq_of_mem_preorder inside (Element.self_mem_preorder path _)
    have isTerminal := Element.isConstruct_of_canHold canHold
    rw [same, statement.isConstruct] at isTerminal
    cases isTerminal
  · have below := Element.mem_preorder_of_prefix inTree isDotted goesOn
    rw [Agenda.preorder_children] at below
    rcases List.mem_cons.mp below with isStatement | below
    · cases isStatement
      rw [Import.constructIn_toElement] at sort
      split at sort <;> cases sort
    · have inTail : (base, dotted) ∈ (statement.toElement.preorder path).tail := by
        rwa [Agenda.preorder_children, List.tail_cons]
      rcases statement.ordinary_below path _ inTail with isOther | ⟨imported, isModule, isEntry⟩
      · simp [sort] at isOther
      · cases isEntry
        exact ⟨imported, isModule,
          Element.mem_preorder_of_prefix isDotted inWhole (List.prefix_append _ _)⟩

/-- In an import statement a walk writes exactly the parts of the modules with the mark of an
inclusion. -/
theorem shows_inclusion_iff (inside : (place, terminal) ∈ statement.toElement.preorder path)
    (isTerminal : terminal.isTerminal = true)
    (isText : terminal.isOfKindIn [Kind.dedent, Kind.newline, Kind.indent, Kind.endMarker] = false) :
    (ofTree settings tree).shows .inclusion place = true ↔
      ∃ imported ∈ statement.modules path,
        (place, terminal) ∈ imported.2.toElement.preorder imported.1 := by
  constructor
  · intro shown
    apply exists_module_of_shows version complete inTree inside _ shown
    by_contra noNameOrDot
    have isOther : terminal.isOfKindIn ([Kind.name, Kind.dot] ++
        [Kind.dedent, Kind.newline, Kind.indent, Kind.endMarker]) = false := by
      rw [Element.isOfKindIn, List.any_append, Bool.or_eq_false_iff]
      exact ⟨Bool.eq_false_iff.mpr noNameOrDot, isText⟩
    rw [shows_eq_false complete (Element.mem_preorder_trans inTree inside) isTerminal isOther] at shown
    cases shown
  · rintro ⟨⟨base, name⟩, isModule, inName⟩
    exact shows_of_module version complete inTree isModule inName
      (Import.DottedName.canHold inName isTerminal)

/-- What stands in front of a module is written without the mark of an inclusion. -/
theorem clear_of_leads (isModule : (base, name) ∈ statement.modules path) {kind : Nat}
    {token : Assignment.Token}
    (isKind : kind ∈ [Kind.name, Kind.comma, Kind.dot, Kind.ellipsis])
    (inside : (place, token.toElement kind) ∈ statement.toElement.preorder path)
    (notDeeper : place.length ≤ base.length) :
    (ofTree settings tree).shows .inclusion place = false := by
  have isTerminal : (token.toElement kind).isTerminal = true := by
    have isSelf : (token.toElement kind).isOfKind kind = true := by
      simp
    apply Element.isTerminal_of_isOfKind isSelf
    simp only [List.mem_cons, List.not_mem_nil, or_false] at isKind
    rcases isKind with rfl | rfl | rfl | rfl <;> decide
  have isText : (token.toElement kind).isOfKindIn
      [Kind.dedent, Kind.newline, Kind.indent, Kind.endMarker] = false := by
    rw [Assignment.Token.isOfKindIn_toElement]
    simp only [List.mem_cons, List.not_mem_nil, or_false] at isKind
    rcases isKind with rfl | rfl | rfl | rfl <;> decide
  rw [Bool.eq_false_iff, ne_eq, shows_inclusion_iff version complete inTree inside isTerminal isText]
  rintro ⟨imported, isOther, inName⟩
  -- All modules of the statement lie equally deep, and their parts deeper.
  have sameDepth : base.length = imported.1.length :=
    (statement.length_modules path _ isModule).trans (statement.length_modules path _ isOther).symm
  rcases Element.prefix_of_mem_preorder inName with ⟨_ | ⟨position, rest⟩, rfl⟩
  · rw [List.append_nil] at inName
    have same := Element.eq_of_mem_preorder inName (Element.self_mem_preorder _ _)
    rw [same, Element.isTerminal_iff, imported.2.isConstruct] at isTerminal
    cases isTerminal
  · rw [List.length_append, List.length_cons] at notDeeper
    omega

/-- The mark of an inclusion is noted for every part of a module when a walk comes to it. -/
theorem labelled_of_module (isModule : (base, name) ∈ statement.modules path) {state : State}
    (met : (state, place, terminal) ∈ (ofTree settings tree).meetings tree)
    (inName : (place, terminal) ∈ name.toElement.preorder base)
    (canHold : terminal.isOfKindIn [Kind.name, Kind.dot] = true) :
    state.labelAt? place = some (.known .inclusion) := by
  rcases List.append_of_mem met with ⟨_, _, split⟩
  rw [← shows_iff_labelled complete split canHold]
  exact shows_of_module version complete inTree isModule inName canHold

/-- A module on one line is written as one symbol, and has nothing of another one in it. -/
theorem module_written (isModule : (base, name) ∈ statement.modules path) (oneLine : name.OnOneLine) :
    ∃ last after, (name.toElement.preorder base).getLast? = some last ∧
      (last.1, after) ∈ (ofTree settings tree).visits.toList ∧
      after.EndsInModule name.first.line name.text := by
  rcases Import.stands_in inTree isModule with
    ⟨early, front, back, isSplit, inside, ⟨ahead, place, kind, token, inner, rfl, isKind, notDeeper,
      constructs⟩, _⟩
  have shape : tree.preorder [] = (early ++ ahead) ++ (place, token.toElement kind) ::
      (inner ++ (name.toElement.preorder base ++ back)) := by
    simp [isSplit]
  rcases exists_met complete shape with ⟨before, state, late, met, _, isLate⟩
  rcases passage_of_met complete met with ⟨after, passage, passes, behind⟩
  rcases List.map_eq_append_iff.mp isLate with ⟨between, rest, rfl, isInner, isRest⟩
  rcases List.map_eq_append_iff.mp isRest with ⟨visits, others, rfl, isName, _⟩
  rcases behind.of_append with ⟨arrived, through, behind⟩
  rcases behind.of_append with ⟨left, written, _⟩
  have clear : arrived.endMark? ≠ some .inclusion := by
    have sameLine : arrived.line = after.line := through.line_of_constructs (isInner ▸ constructs)
    have isMet : (state, place, token.toElement kind) ∈ (ofTree settings tree).meetings tree := by
      simp [met]
    have isInside : (place, token.toElement kind) ∈ statement.toElement.preorder path :=
      inside _ (by simp)
    have unmarked := clear_of_leads version complete inTree isModule isKind isInside notDeeper
    rw [Bool.eq_false_iff, ne_eq, shows_iff complete isMet] at unmarked
    intro marked
    rw [State.endMark?, sameLine] at marked
    exact unmarked ⟨after, passes, marked⟩
  have notes : arrived.OnlyNotes :=
    through.onlyNotes (passes.onlyNotes (passage.onlyNotes State.onlyNotes_empty))
  have held : ∀ meeting ∈ visits, meeting.2.2.isOfKindIn [Kind.name, Kind.dot] = true →
      meeting.1.labelAt? meeting.2.1 = some (.known .inclusion) := by
    intro meeting member
    exact labelled_of_module version complete inTree isModule (by simp [met, member])
      (isName ▸ List.mem_map_of_mem member)
  have exists_last : ∃ last, (name.toElement.preorder base).getLast? = some last := by
    rw [name.preorder]
    exact ⟨_, List.getLast?_eq_some_getLast (List.cons_ne_nil _ _)⟩
  rcases exists_last with ⟨last, isLast⟩
  refine ⟨last, left, isLast, ?_, written.writes_module isName notes oneLine held clear⟩
  have isPart : (ofTree settings tree).meetings tree =
      (before ++ (state, place, token.toElement kind) :: between) ++ (visits ++ others) := by
    simp [met]
  rw [← isName] at isLast
  exact recorded_last complete isPart written isLast

end Statement

/-- No modules are left to read where an import statement begins, nor where it ends. -/
theorem importing_around (version : settings.grammar = .version3) (shaped : tree.ImportsShaped)
    (complete : (ofTree settings tree).fault = none) {early late : List (Path × Element)}
    (isSplit : tree.preorder [] = early ++ (statement.toElement.preorder path ++ late)) :
    (visitEach settings {} early).state.importing = false ∧
      (visitEach settings {} (early ++ statement.toElement.preorder path)).state.importing = false ∧
      (statement.isList = true →
        (visitEach settings {} (early ++ statement.toElement.preorder path)).state.importHalves =
          some 0) := by
  have isVersion : settings.grammar ∈ Grammar.versions := version ▸ List.mem_cons_self
  have inTree : (path, statement.toElement) ∈ tree.preorder [] := by
    simp [isSplit, Element.self_mem_preorder]
  have isImport : statement.toElement.constructIn .version3 ∈ [.importName, .importFrom] := by
    rw [Import.constructIn_toElement]
    split <;> simp
  have countBefore := visitEach_importCount isVersion complete isSplit
  have countBehind := visitEach_importCount isVersion complete
    (isSplit.trans (List.append_assoc _ _ _).symm)
  rw [version] at countBefore countBehind
  have settled : (({} : State).importCount.passAll .version3 early).importing = false := by
    have balanced := Import.balanced_preorder [] tree shaped
    rw [Agenda.preorder_children path, List.cons_append] at isSplit
    exact balanced.apart _ rfl _ _ _ isSplit isImport
  rw [ImportCount.passAll_append] at countBehind
  refine ⟨?_, ?_, ?_⟩
  · exact (congrArg ImportCount.importing countBefore).trans settled
  · have balanced := Import.balanced_preorder path statement.toElement fun entry member =>
      shaped entry (Element.mem_preorder_trans inTree member)
    exact (congrArg ImportCount.importing countBehind).trans (balanced.settles _ settled)
  · intro isList
    cases statement with
    | names word first others =>
        rw [Import.passAll_names] at countBehind
        exact congrArg ImportCount.halves countBehind
    | fromModule => cases isList

/-- In a walk that comes to its end every import statement begins and ends with no modules left to read,
exactly the parts of its modules are written with the mark of an inclusion, and each module on one line
becomes one symbol. -/
theorem imports_mark_modules (version : settings.grammar = .version3) (shaped : tree.ImportsShaped)
    (complete : (ofTree settings tree).fault = none)
    (inTree : (path, statement.toElement) ∈ tree.preorder []) :
    (∃ early late, tree.preorder [] = early ++ (statement.toElement.preorder path ++ late) ∧
      (visitEach settings {} early).state.importing = false ∧
      (visitEach settings {} (early ++ statement.toElement.preorder path)).state.importing = false ∧
      (statement.isList = true →
        (visitEach settings {} (early ++ statement.toElement.preorder path)).state.importHalves =
          some 0)) ∧
    (∀ place terminal, (place, terminal) ∈ statement.toElement.preorder path →
      terminal.isTerminal = true →
      terminal.isOfKindIn [Kind.dedent, Kind.newline, Kind.indent, Kind.endMarker] = false →
        ((ofTree settings tree).shows .inclusion place = true ↔
          ∃ imported ∈ statement.modules path,
            (place, terminal) ∈ imported.2.toElement.preorder imported.1)) ∧
    ∀ imported ∈ statement.modules path, imported.2.OnOneLine →
      ∃ last after, (imported.2.toElement.preorder imported.1).getLast? = some last ∧
        (last.1, after) ∈ (ofTree settings tree).visits.toList ∧
        after.EndsInModule imported.2.first.line imported.2.text := by
  refine ⟨?_, ?_, ?_⟩
  · rcases Element.preorder_split inTree with ⟨early, late, isSplit⟩
    exact ⟨early, late, isSplit, importing_around version shaped complete isSplit⟩
  · intro place terminal inside isTerminal isText
    exact shows_inclusion_iff version complete inTree inside isTerminal isText
  · intro imported isModule oneLine
    exact module_written version complete inTree isModule oneLine

/-- The statement `import a.b as c, d`. -/
def twoModules : Import :=
  .names ⟨"import", 1, []⟩
    ⟨⟨⟨"a", 1, []⟩, [(⟨".", 1, []⟩, ⟨"b", 1, []⟩)]⟩, some (⟨"as", 1, []⟩, ⟨"c", 1, []⟩)⟩
    [(⟨",", 1, []⟩, ⟨⟨⟨"d", 1, []⟩, []⟩, none⟩)]

/-- The statement `from .e import f`, on the next line. -/
def oneModule : Import :=
  .fromModule ⟨"from", 2, []⟩ [⟨Kind.dot, by decide, ⟨".", 2, []⟩⟩] (some ⟨⟨"e", 2, []⟩, []⟩)
    ⟨"import", 2, []⟩
    [⟨.node [.int 287, .node [.int 285, .node [.int 1, .text "f", .int 2]]], by decide +kernel⟩]

/-- Both statements. -/
def twoImports : Element :=
  .ofKind 257 [twoModules.toElement, oneModule.toElement]

theorem twoImports_preorder :
    twoImports.preorder [] =
      ([], twoImports) :: (twoModules.toElement.preorder [1] ++ oneModule.toElement.preorder [2]) :=
  rfl

theorem twoImports_shaped : twoImports.ImportsShaped := by
  have shaped (statement : Import) (path : Path) (entry : Path × Element)
      (member : entry ∈ statement.toElement.preorder path)
      (isImport : entry.2.constructIn .version3 ∈ [.importName, .importFrom]) :
      ∃ other : Import, entry.2 = other.toElement := by
    rw [Agenda.preorder_children] at member
    rcases List.mem_cons.mp member with rfl | isBelow
    · exact ⟨statement, rfl⟩
    · have noImport := statement.no_import_below path entry
      rw [Agenda.preorder_children] at noImport
      exact absurd isImport (noImport isBelow)
  intro entry member isImport
  rw [twoImports_preorder, List.mem_cons, List.mem_append] at member
  rcases member with rfl | first | second
  · exact absurd isImport (by decide +kernel)
  · exact shaped twoModules [1] entry first isImport
  · exact shaped oneModule [2] entry second isImport

theorem twoImports_complete : (ofTree {} twoImports).fault = none := by
  rw [ofTree_eq_visitEach]
  decide +kernel

theorem imports_mark_modules_twoImports :
    Settings.grammar {} = .version3 ∧ twoImports.ImportsShaped ∧
      (ofTree {} twoImports).fault = none ∧
      ([1], twoModules.toElement) ∈ twoImports.preorder [] ∧
      (∃ early late, twoImports.preorder [] = early ++ (twoModules.toElement.preorder [1] ++ late) ∧
        (visitEach {} {} (early ++ twoModules.toElement.preorder [1])).state.importHalves = some 0) ∧
      (ofTree {} twoImports).shows .inclusion [1, 2, 1, 1, 2] = true ∧
      (ofTree {} twoImports).shows .inclusion [1, 2, 1, 3] = false ∧
      ∃ after, ([1, 2, 1, 1, 3], after) ∈ (ofTree {} twoImports).visits.toList ∧
        after.EndsInModule 1 "a.b" := by
  have inTree : ([1], twoModules.toElement) ∈ twoImports.preorder [] := by
    rw [twoImports_preorder]
    simp [Element.self_mem_preorder]
  have oneLine : Import.DottedName.OnOneLine ⟨⟨"a", 1, []⟩, [(⟨".", 1, []⟩, ⟨"b", 1, []⟩)]⟩ := by
    simp [Import.DottedName.OnOneLine, Import.DottedName.tokens]
  rcases imports_mark_modules rfl twoImports_shaped twoImports_complete inTree with
    ⟨⟨early, late, isSplit, _, _, counted⟩, marks, written⟩
  rcases written _ List.mem_cons_self oneLine with ⟨last, after, isLast, isRecorded, ends⟩
  refine ⟨rfl, twoImports_shaped, twoImports_complete, inTree, ⟨early, late, isSplit, counted rfl⟩,
    ?_, ?_, after, ?_, ends⟩
  · have isDot := marks [1, 2, 1, 1, 2] (.node [.int 23, .text ".", .int 1])
      (List.mem_of_getElem? (i := 6) rfl) rfl rfl
    exact isDot.mpr ⟨_, List.mem_cons_self, .tail _ (.tail _ (.head _))⟩
  · have isNickname := marks [1, 2, 1, 3] (.node [.int 1, .text "c", .int 1])
      (List.mem_of_getElem? (i := 9) rfl) rfl rfl
    rw [Bool.eq_false_iff, ne_eq, isNickname]
    rintro ⟨imported, isModule, inName⟩
    have isBase : imported.1 ∈ [[1, 2, 1, 1], [1, 2, 3, 1]] :=
      List.mem_map_of_mem (f := Prod.fst) isModule
    have goesOn := Element.prefix_of_mem_preorder inName
    simp only [List.mem_cons, List.not_mem_nil, or_false] at isBase
    rcases isBase with isBase | isBase
    · exact absurd (isBase ▸ goesOn) (by decide)
    · exact absurd (isBase ▸ goesOn) (by decide)
  · cases isLast
    exact isRecorded

end Walk

end CrossRef
