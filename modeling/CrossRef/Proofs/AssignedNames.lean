import CrossRef.Proofs.AssignmentParts
import CrossRef.Proofs.MarkOrigins
import CrossRef.Proofs.TargetPlans
import CrossRef.Proofs.WrittenMarks

/-!
# The names that an assignment marks

A walk that comes to an assignment writes a name with the mark of an assignment exactly if it is one of
the names that the assignment assigns to.  No name in it has been noted before.  The statement awaits its
targets, an awaited target makes the walk look for a primary, and the first primary takes note of its
name or awaits the targets between its brackets.  Everything else, however much of it there is in
subscripts, arguments and in the value, leaves the notes about assignments alone.
-/

namespace CrossRef

namespace Item

/-- Whether an item is a symbol with the mark of an assignment. -/
def isAssignment : Item → Bool
  | .symbol (some .assignment) _ => true
  | _ => false

theorem isAssignment_eq (item : Item) : item.isAssignment = decide (item.mark? = some .assignment) := by
  cases item with
  | symbol mark name =>
      rcases mark with _ | mark
      · rfl
      · cases mark <;> rfl
  | plain text => rfl

theorem isAssignment_makeSymbol {text : Element} {label : Label} {item : Item}
    (made : makeSymbol text label = .ok item) : item.isAssignment = label.isAssignment := by
  unfold makeSymbol at made
  split at made
  next => cases made; rfl
  next =>
    split at made
    next => cases made
    next =>
      split at made
      next mark isMark =>
        cases made
        rw [isAssignment_eq]
        cases label with
        | known mark => cases isMark; simp [Label.isAssignment, mark?]
        | other value =>
            simp only [Label.toMark] at isMark
            split at isMark
            · cases isMark
            · cases isMark; rfl
      next => cases made
  next => cases made

theorem isAssignment_makePlain {text : Element} {item : Item} (made : makePlain text = .ok item) :
    item.isAssignment = false := by
  unfold makePlain at made
  split at made
  next =>
    split at made
    · cases made
    · cases made; rfl
  next => cases made

end Item

namespace State

open Assignment

variable {settings : Settings} {stars : Bool} {leaves : List Path}

/-- A primary that is looked for assigns to its name. -/
theorem part_primary (version : settings.grammar = .version3) (primary : Primary) (path : Path) :
    Part settings true (primary.toElement.preorder path) []
      (primary.leaf?.map fun leaf => path ++ leaf.1).toList := by
  have once := Element.preorder_nodup path primary.toElement
  rw [Primary.toElement, Element.preorder_ofKind] at once ⊢
  rw [List.map_cons, List.nodup_cons] at once
  have others : Part settings false
      (Element.preorderFrom path 1 (primary.atom.toElement :: primary.trailers.map Trailer.toElement))
      [] [] := by
    apply part_idles once.2
    rw [version]
    exact Element.no_statement_of_expressions primary.isExpression_parts path 1
  rw [← List.append_nil (Option.toList _)]
  apply Part.cons (by simp [Grammar.version3, Kind.name]) (List.nil_subset _) _ others
  intro before after passes seeks awaits
  apply passes.looksAhead version seeks
  intro middle taken
  have noted := takeAll_target taken
  cases isLeaf : primary.leaf? with
  | none =>
      rw [isLeaf] at noted
      cases noted
      exact ⟨rfl, fun place member => awaits place (List.mem_cons_of_mem path member),
        List.Perm.refl _, fun _ _ => rfl, fun _ _ => Iff.rfl⟩
  | some leaf =>
      rw [isLeaf] at noted
      have isName : (leaf.2.toElement Kind.name).isOfKind Kind.name = true := by
        simp
      exact looksAhead_of_setMark noted once.2 (primary.mem_of_leaf? isLeaf path) isName awaits

/-- The way down to what is looked for. -/
theorem part_wrap (version : settings.grammar = .version3) (links : List Link) {kind : Nat}
    {parts : List Element} (path : Path)
    (inner : Part settings true
      ((Element.ofKind kind parts).preorder (path ++ descent links)) [] leaves) :
    Part settings true ((wrap links (.ofKind kind parts)).preorder path) [] leaves := by
  induction links generalizing path with
  | nil =>
      rw [descent, List.map_nil, List.append_nil] at inner
      exact inner
  | cons link links ih =>
      rcases exists_wrap links kind parts with ⟨outer, below, isWrap⟩
      have onward : Part settings true ((wrap links (.ofKind kind parts)).preorder (path ++ [1])) []
          leaves := by
        apply ih
        rw [List.append_assoc]
        exact inner
      have isOuter : wrap (link :: links) (.ofKind kind parts) =
          .ofKind link.kind [wrap links (.ofKind kind parts)] := rfl
      rw [isOuter, isWrap, Element.preorder_ofKind, Element.preorderFrom_ofKind, ← isWrap,
        Element.preorderFrom, List.append_nil]
      exact onward.link version link

/-- A target that is a test with what is looked for below it. -/
theorem part_target (version : settings.grammar = .version3) (links : List Link) {kind : Nat}
    {parts : List Element} (path : Path)
    (inner : Part settings true
      ((Element.ofKind kind parts).preorder (path ++ [1] ++ descent links)) [] leaves) :
    Part settings false
      ((Element.ofKind Grammar.version3.test [wrap links (.ofKind kind parts)]).preorder path) [path]
      leaves := by
  have onward := part_wrap version links (path ++ [1]) inner
  rcases exists_wrap links kind parts with ⟨outer, below, isWrap⟩
  rw [isWrap] at onward ⊢
  rw [Element.preorder_ofKind, Element.preorderFrom_ofKind, Element.preorderFrom, List.append_nil]
  exact onward.expression version (by decide)

/-- A terminal has no part in an assignment. -/
theorem part_token (version : settings.grammar = .version3) {kind : Nat}
    (isTerminal : kind < Kind.firstConstruct) (token : Token) (path : Path) :
    Part settings false [(path, token.toElement kind)] [] [] := by
  apply part_idle path
  have differs : kind ≠ Grammar.version3.expressionStatement := by
    simp only [Kind.firstConstruct, Grammar.version3] at isTerminal ⊢
    omega
  rw [version, Token.isOfKind_toElement, decide_eq_false differs]

/-- Brackets that are looked for assign to what the members that they await assign to. -/
theorem part_bracketed (version : settings.grammar = .version3) (brackets : Brackets)
    (opening closing : Token) {members : List Element} {places : List Path} (path : Path)
    (notes : Plan.Notes [] (Plan.awaitMembers [Grammar.version3.test] (path ++ [1, 2])
      (positioned 1 members)) [] places)
    (inner : Part settings false (Element.preorderFrom (path ++ [1, 2]) 1 members) places leaves) :
    Part settings true
      ((Element.ofKind Grammar.version3.power
        [.ofKind Grammar.version3.atom
          [opening.toElement brackets.opening, .ofKind Kind.members members,
           closing.toElement brackets.closing]]).preorder path) [] leaves := by
  let list := Element.ofKind Kind.members members
  let atom := Element.ofKind Grammar.version3.atom
    [opening.toElement brackets.opening, list, closing.toElement brackets.closing]
  let primary := Element.ofKind Grammar.version3.power [atom]
  -- Only the inner targets are expected; what stands around them has no part in the assignment.
  let below := ([(path ++ [1], atom)] ++
    ([(path ++ [1, 1], opening.toElement brackets.opening)] ++ ([(path ++ [1, 2], list)] ++
      (Element.preorderFrom (path ++ [1, 2]) 1 members ++
        [(path ++ [1, 3], closing.toElement brackets.closing)]))))
  have nodes : primary.preorder path = (path, primary) :: below := by
    simp [primary, atom, list, below, Element.preorder_ofKind, Element.preorderFrom_ofKind,
      Token.preorderFrom, Element.preorderFrom]
  have once := Element.preorder_nodup path primary
  rw [nodes] at once
  have once := (List.nodup_cons.mp once).2
  have isTerminal : brackets.opening < Kind.firstConstruct ∧
      brackets.closing < Kind.firstConstruct := by
    cases brackets <;> decide
  have others : Part settings false below (places ++ []) (leaves ++ []) := by
    have onceInAtom := once_behind once
    have onceInList := once_behind (once_behind onceInAtom)
    have closes := inner.append (part_token version isTerminal.2 closing (path ++ [1, 3])) onceInList
    have ofList : Part settings false [(path ++ [1, 2], list)] [] [] := by
      apply part_idle
      simp [version, list, Grammar.version3, Kind.members]
    have ofAtom : Part settings false [(path ++ [1], atom)] [] [] := by
      apply part_idle
      simp [version, atom, Grammar.version3]
    have ofOpening := part_token version isTerminal.1 opening (path ++ [1, 1])
    have members := ofList.append closes (once_behind onceInAtom)
    exact ofAtom.append (ofOpening.append members onceInAtom) once
  rw [List.append_nil, List.append_nil] at others
  show Part settings true (primary.preorder path) [] ([] ++ leaves)
  rw [nodes]
  apply Part.cons (by simp [primary, Grammar.version3, Kind.name]) (List.nil_subset _) _ others
  intro before after passes seeks awaits
  apply passes.looksAhead version seeks
  intro middle taken
  exact looksAhead_of_takeAll notes (takeAll_bracketed taken) awaits others.inside

/-- Members that nothing awaits have no part in an assignment. -/
theorem part_unawaited (version : settings.grammar = .version3) (path : Path) (position : Nat)
    (members : Members stars) :
    Part settings false (Element.preorderFrom path position members.elements) [] [] := by
  apply part_idles (Element.preorderFrom_nodup _ _ _)
  rw [version]
  exact Element.no_statement_of_expressions members.isExpression path position

theorem map_through (front back : Path) (ways : List Path) :
    (ways.map fun way => back ++ way).map (front ++ ·) = ways.map fun way => front ++ back ++ way := by
  simp

mutual

/-- A target that is looked for assigns to its names. -/
theorem part_ofTarget (version : settings.grammar = .version3) (path : Path) :
    ∀ target : Target stars,
      Part settings true (target.toElement.preorder path) [] (target.ways.map (path ++ ·))
  | .primary primary => by
      have same : (primary.leaf?.map Prod.fst).toList.map (path ++ ·) =
          (primary.leaf?.map fun leaf => path ++ leaf.1).toList := by
        cases primary.leaf? <;> rfl
      rw [Target.toElement, Target.ways, same]
      exact part_primary version primary path
  | .bracketed brackets opening closing members => by
      rw [Target.toElement, Target.ways, map_through]
      exact part_bracketed version brackets opening closing path
        (members.awaits false (path ++ [1, 2]) 1) (part_ofMembers version false (path ++ [1, 2]) members 1)

/-- An awaited member assigns to its names, whether it is starred or not. -/
theorem part_ofMember (version : settings.grammar = .version3) (path : Path) :
    ∀ member : Member stars,
      Part settings false (member.toElement.preorder path) [path] (member.ways.map (path ++ ·))
  | .plain links target => by
      have inner := part_ofTarget version (path ++ [1] ++ descent links) target
      rcases target.exists_parts with ⟨parts, isPower⟩
      rw [Member.toElement, Member.ways, map_through, ← List.append_assoc]
      rw [isPower] at inner ⊢
      exact part_target version links path inner
  | .starred allowed star links target => by
      have inner := part_ofTarget version (path ++ [2] ++ descent links) target
      have once := Element.preorder_nodup path (Member.starred allowed star links target).toElement
      rcases target.exists_parts with ⟨parts, isPower⟩
      rw [Member.toElement] at once ⊢
      rw [Member.ways, map_through, ← List.append_assoc]
      rw [isPower] at inner once ⊢
      have onward := part_wrap version links (path ++ [2]) inner
      rcases exists_wrap links Grammar.version3.power parts with ⟨outer, below, isWrap⟩
      rw [isWrap] at onward once ⊢
      rw [Element.preorder_ofKind, Token.preorderFrom, Element.preorderFrom_ofKind,
        Element.preorderFrom, List.append_nil] at once ⊢
      simp only [List.map_cons, List.nodup_cons] at once
      have isTerminal : (star.toElement starToken).isTerminal = true :=
        Element.isTerminal_of_isOfKind ((star.isOfKind_toElement starToken starToken).trans rfl)
          (by decide)
      have notName : (star.toElement starToken).isOfKind Kind.name = false := by
        rw [Token.isOfKind_toElement]
        rfl
      exact (onward.terminal isTerminal notName once.2.1).expression version (by decide)

/-- Awaited members with commas between them assign to their names. -/
theorem part_ofMembers (version : settings.grammar = .version3) (taken : Bool) (path : Path) :
    ∀ (members : Members stars) (position : Nat),
      Part settings false (Element.preorderFrom path position members.elements)
        (members.places taken path position) ((members.ways taken position).map (path ++ ·))
  | .last member, position => by
      have unawaited := part_unawaited version path position (.last member)
      rw [Members.places, Members.ways]
      split
      next => exact unawaited
      next =>
        rw [Members.elements, member.preorderFrom, Element.preorderFrom, List.append_nil, map_through]
        exact part_ofMember version (path ++ [position]) member
  | .trailing member comma, position => by
      have unawaited := part_unawaited version path position (.trailing member comma)
      have once := Element.preorderFrom_nodup path position (Members.trailing member comma).elements
      rw [Members.places, Members.ways]
      split
      next => exact unawaited
      next =>
        rw [Members.elements, member.preorderFrom, Token.preorderFrom, Element.preorderFrom] at once ⊢
        rw [map_through, ← List.append_nil (List.map _ member.ways)]
        exact (part_ofMember version (path ++ [position]) member).append
          (part_token version (by decide) comma (path ++ [position + 1])) once
  | .cons member comma rest, position => by
      have unawaited := part_unawaited version path position (.cons member comma rest)
      have once := Element.preorderFrom_nodup path position (Members.cons member comma rest).elements
      rw [Members.places, Members.ways]
      split
      next => exact unawaited
      next =>
        rw [Members.elements, member.preorderFrom, Token.preorderFrom] at once ⊢
        have behind := (part_token version (by decide) comma (path ++ [position + 1])).append
          (part_ofMembers version taken path rest (position + 2)) (once_behind once)
        rw [List.map_append, map_through]
        exact (part_ofMember version (path ++ [position]) member).append behind once

end

/-- A list on the left assigns to what its members assign to. -/
theorem part_ofList (version : settings.grammar = .version3) (members : Members stars) (path : Path) :
    Part settings false (members.toElement.preorder path) (members.places true path 1)
      ((members.ways true 1).map (path ++ ·)) := by
  have once := Element.preorder_nodup path members.toElement
  rw [Members.toElement, Element.preorder_ofKind] at once ⊢
  have ofList : Part settings false [(path, .ofKind Grammar.version3.targetList members.elements)]
      [] [] := by
    apply part_idle
    simp [version, Grammar.version3]
  exact ofList.append (part_ofMembers version true path members 1) once

/-- Lists whose targets are awaited, with the value behind them. -/
theorem part_ofLists (version : settings.grammar = .version3) (path : Path)
    (assignment : Assignment stars) (position : Nat) :
    Part settings false (Element.preorderFrom path position assignment.elements)
      (assignment.places path position) ((assignment.ways position).map (path ++ ·)) := by
  induction assignment generalizing position with
  | last targets equal value =>
      have once := Element.preorderFrom_nodup path position
        (Assignment.last targets equal value).elements
      rw [elements, targets.preorderFrom, Token.preorderFrom] at once ⊢
      have ofValue : Part settings false (Element.preorderFrom path (position + 2) [value.tree])
          [] [] := by
        apply part_idles (Element.preorderFrom_nodup _ _ _)
        rw [version]
        apply Element.no_statement_of_expressions
        simp [value.isExpression]
      have behind := (part_token version (by decide) equal (path ++ [position + 1])).append ofValue
        (once_behind once)
      have whole := (part_ofList version targets (path ++ [position])).append behind once
      rw [places, ways, map_through]
      rwa [List.append_nil, List.append_nil, List.append_nil] at whole
  | cons targets equal rest ih =>
      have once := Element.preorderFrom_nodup path position (Assignment.cons targets equal rest).elements
      rw [elements, targets.preorderFrom, Token.preorderFrom] at once ⊢
      have behind := (part_token version (by decide) equal (path ++ [position + 1])).append
        (ih (position + 2)) (once_behind once)
      rw [ways, List.map_append, map_through]
      exact (part_ofList version targets (path ++ [position])).append behind once

/-- A statement that awaits what is assigned to below it. -/
theorem part_statement (version : settings.grammar = .version3) {parts : List Element}
    {places : List Path} (path : Path)
    (notes : Plan.Notes [] (Plan.expressionStatement .version3 path
      (.ofKind Grammar.version3.expressionStatement parts)) [] places)
    (others : Part settings false (Element.preorderFrom path 1 parts) places leaves) :
    Part settings false ((Element.ofKind Grammar.version3.expressionStatement parts).preorder path) []
      leaves := by
  rw [Element.preorder_ofKind, ← List.nil_append leaves]
  apply Part.cons (by simp [Grammar.version3, Kind.name]) (List.nil_subset _) _ others
  intro before after passes settled awaits
  have taken := passes.takeAll (by decide)
  have sort : Grammar.version3.constructOf (.int Grammar.version3.expressionStatement) =
    .expressionStatement := rfl
  rw [version, sort] at taken
  rcases looksAhead_of_takeAll notes taken awaits others.inside with ⟨same, ahead⟩
  exact ⟨same.trans settled, ahead⟩

/-- An assignment assigns to the names in its targets. -/
theorem part_ofAssignment (version : settings.grammar = .version3) (assignment : Assignment stars)
    (path : Path) :
    Part settings false (assignment.toElement.preorder path) [] (assignment.leaves path) :=
  part_statement version path (assignment.awaits path) (part_ofLists version path assignment 1)

/-! ## What is written -/

/-- Whether the line at hand ends in a symbol with the mark of an assignment. -/
def endsInAssignment (state : State) : Bool :=
  state.line.any fun line => line.items.getLast?.any Item.isAssignment

theorem endsInAssignment_eq (state : State) :
    state.endsInAssignment = decide (state.endMark? = some .assignment) := by
  unfold endsInAssignment endMark?
  cases state.line with
  | none => rfl
  | some line =>
      cases isLast : line.items.getLast? with
      | none => simp [isLast]
      | some last => simp [isLast, Item.isAssignment_eq]

theorem endsInAssignment_addItem {before after : State} {item : Item}
    (added : before.addItem item = ⟨after, none⟩) : after.endsInAssignment = item.isAssignment := by
  rw [endsInAssignment_eq, endMark?_addItem added, Item.isAssignment_eq]

theorem exists_item_of_addMade {before after : State} {grammar : Grammar} {made : Except Fault Item}
    (taken : before.takeAll grammar (Plan.addMade made) = ⟨after, none⟩) :
    ∃ item, made = .ok item ∧ after.endsInAssignment = item.isAssignment := by
  cases made with
  | error fault => exact absurd taken (takeAll_fail _ _ _ _)
  | ok item =>
      have taken : before.takeAll grammar ([item].map .add) = ⟨after, none⟩ := taken
      rcases takeAll_add_cons taken with ⟨middle, added, rest⟩
      cases rest
      exact ⟨item, rfl, endsInAssignment_addItem added⟩

/-- A name is written with the mark of an assignment exactly if it is noted as assigned to. -/
theorem takeAll_name_endsInAssignment {before middle after : State} {path : Path} {text : Element}
    (taken : middle.takeAll settings.grammar (Plan.name settings before path text) = ⟨after, none⟩) :
    after.endsInAssignment = before.isNoted path := by
  unfold Plan.name at taken
  unfold isNoted
  split at taken
  next label held =>
    rw [held]
    have taken : (middle.dropMark path).takeAll settings.grammar
        (Plan.addMade (Item.makeSymbol text label)) = ⟨after, none⟩ := taken
    rcases exists_item_of_addMade taken with ⟨item, made, ends⟩
    rw [ends, Item.isAssignment_makeSymbol made]
    rfl
  next unlabelled =>
    rw [unlabelled]
    split at taken
    next =>
      rcases exists_item_of_addMade taken with ⟨item, made, ends⟩
      rw [ends, Item.isAssignment_makePlain made]
      rfl
    next =>
      rcases exists_item_of_addMade taken with ⟨item, made, ends⟩
      rw [ends, Item.isAssignment_makeSymbol made]
      rfl

theorem Passes.endsInAssignment {before after : State} {path : Path} {node : Element}
    (passes : before.Passes settings path node after) (isName : node.isOfKind Kind.name = true) :
    after.endsInAssignment = before.isNoted path := by
  cases passes with
  | construct isConstruct visited =>
      rw [Element.not_isOfKind_of_isConstruct isConstruct Kind.name (by decide)] at isName
      cases isName
  | terminal number isTerminal numbered visited =>
      unfold visitTerminal Plan.terminal at visited
      split at visited
      · exact absurd visited (takeAll_fail _ _ _ _)
      · exact absurd visited (takeAll_fail _ _ _ _)
      next kind text hasKind hasText =>
        have notOther := Element.not_isOfKind isName
        simp only [Plan.token, ← Element.isOfKind_eq hasKind, isName, notOther Kind.dedent (by decide),
          notOther Kind.newline (by decide), notOther Kind.indent (by decide),
          notOther Kind.string (by decide), Bool.false_eq_true, if_false, if_true] at visited
        split at visited
        · exact absurd visited (takeAll_fail _ _ _ _)
        · rcases exists_takeAll_of_append visited with ⟨middle, _, taken⟩
          exact takeAll_name_endsInAssignment taken

end State

namespace Walk

variable {settings : Settings}

/-- The names among some nodes that were written with the mark of an assignment, read off the record of
their visits. -/
def assignedAmong (nodes : List (Path × Element)) (visits : List (Path × State)) : List Path :=
  ((nodes.zip visits).filter fun (entry, visit) =>
    entry.2.isOfKind Kind.name && visit.2.endsInAssignment).map (·.1.1)

/-- The names of a tree that a walk of it wrote with the mark of an assignment. -/
def assigned (walk : Walk) (path : Path) (tree : Element) : List Path :=
  assignedAmong (tree.preorder path) walk.visits.toList

/-- Visits that all come off write with the mark of an assignment what they meet noted as assigned
to. -/
theorem visitEach_assigned {nodes : List (Path × Element)} {walk : Walk}
    (sound : (visitEach settings walk nodes).fault = none) :
    ∃ meetings later, State.Passage settings walk.state meetings (visitEach settings walk nodes).state ∧
      meetings.map Prod.snd = nodes ∧
      (visitEach settings walk nodes).visits.toList = walk.visits.toList ++ later ∧
      assignedAmong nodes later = State.assignedIn meetings := by
  induction nodes generalizing walk with
  | nil => exact ⟨[], [], .nil walk.state, rfl, by simp [visitEach], rfl⟩
  | cons entry rest ih =>
      rcases entry with ⟨path, node⟩
      rcases visitEach_cons sound with ⟨firstSound, goesOn⟩
      rcases visit_passes firstSound with ⟨passes, recorded⟩
      rw [goesOn] at sound ⊢
      rcases ih sound with ⟨meetings, later, passage, isRest, grown, assigned⟩
      refine ⟨(walk.state, path, node) :: meetings,
        (path, (walk.visit settings path node).state) :: later, .cons passes passage, ?_, ?_, ?_⟩
      · rw [List.map_cons, isRest]
      · rw [grown, recorded]
        simp
      · have same : (node.isOfKind Kind.name &&
              (walk.visit settings path node).state.endsInAssignment) =
            (node.isOfKind Kind.name && walk.state.isNoted path) := by
          cases isName : node.isOfKind Kind.name with
          | false => rfl
          | true => rw [passes.endsInAssignment isName]
        unfold assignedAmong State.assignedIn at assigned ⊢
        rw [List.zip_cons_cons, List.filter_cons, List.filter_cons]
        simp only [same]
        split
        · simp only [List.map_cons, assigned]
        · exact assigned

/-- A walk of a part that leaves nothing awaited behind marks what the part assigns to, each once,
together with what had been noted in it before. -/
theorem assigned_of_part {node : Element} {state : State} {path : Path} {leaves : List Path}
    (part : State.Part settings false (node.preorder path) [] leaves)
    (noneAwaited : state.awaited = []) (settled : state.assigning = false)
    (complete : (below settings state path node).fault = none) :
    ((below settings state path node).assigned path node).Nodup ∧
      ((below settings state path node).assigned path node).Perm
        (leaves ++ state.notedAmong (node.preorder path)) := by
  rw [below_eq_visitEach] at complete ⊢
  rcases visitEach_assigned complete with ⟨meetings, later, passage, isNodes, recorded, assigned⟩
  unfold Walk.assigned
  rw [recorded, List.nil_append, assigned]
  constructor
  · apply State.nodup_assignedIn
    rw [isNodes]
    exact Element.preorder_nodup path node
  · have assigns := part.assigns state meetings _ passage isNodes settled (by simp [noneAwaited])
    have perm := assigns.assigned
    rwa [isNodes] at perm

/-- A walk of an assignment that starts with nothing awaited, nothing looked for and nothing noted in it
marks the names that the assignment assigns to, each once. -/
theorem assigned_of_assignment (version : settings.grammar = .version3) {stars : Bool}
    {assignment : Assignment stars} {state : State} {path : Path} (noneAwaited : state.awaited = [])
    (settled : state.assigning = false)
    (unnoted : state.notedAmong (assignment.toElement.preorder path) = [])
    (complete : (below settings state path assignment.toElement).fault = none) :
    ((below settings state path assignment.toElement).assigned path assignment.toElement).Nodup ∧
      ((below settings state path assignment.toElement).assigned path assignment.toElement).Perm
        (assignment.leaves path) := by
  have marked := assigned_of_part (State.part_ofAssignment version assignment path) noneAwaited settled
    complete
  rwa [unnoted, List.append_nil] at marked

/-- When a walk comes to a statement, no name in it is noted as assigned to: notes about names that are
still to come lead through primaries and dotted names only. -/
theorem Comes.notedAmong_statement {tree node : Element} {walk : Walk} {path : Path} {pending : Agenda}
    (version : settings.grammar = .version3) (comes : Comes settings tree walk ((path, node) :: pending))
    (isStatement : node.isOfKind Grammar.version3.expressionStatement = true) :
    walk.state.notedAmong (node.preorder path) = [] := by
  have known : settings.grammar ∈ Grammar.versions := by
    rw [version]
    exact List.mem_cons_self
  have notOther := Element.not_isOfKind isStatement
  apply List.eq_nil_iff_forall_not_mem.mpr
  intro place member
  rcases List.mem_map.mp member with ⟨⟨_, name⟩, isNoted, rfl⟩
  rcases List.mem_filter.mp isNoted with ⟨isBelow, isNoted⟩
  rcases Bool.and_eq_true_iff.mp isNoted with ⟨isName, isNoted⟩
  rcases State.exists_mark_of_isNoted isNoted with ⟨label, marked⟩
  rcases Element.inside_of_mem_preorder isBelow with ⟨way, rfl, inside⟩
  have further : way ≠ [] := by
    rintro rfl
    cases inside
    rw [notOther Kind.name (by decide)] at isName
    cases isName
  rcases comes.marked_below known marked rfl further with isPart | ⟨isDotted, _⟩
  · rw [version, Grammar.constructIn_of_isOfKind isStatement] at isPart
    cases isPart
  · rw [version, notOther _ (by decide)] at isDotted
    cases isDotted

/-- A walk that comes to an assignment without stars, with nothing awaited and nothing looked for, and
goes through it writes exactly the names that are assigned to with the mark of an assignment, each
once. -/
theorem below_assigned (settings : Settings) (version : settings.grammar = .version3) (tree : Element)
    (walk : Walk) (path : Path) (assignment : Assignment false) (pending : Agenda)
    (comes : Comes settings tree walk ((path, assignment.toElement) :: pending))
    (noneAwaited : walk.state.awaited = []) (settled : walk.state.assigning = false)
    (complete : (below settings walk.state path assignment.toElement).fault = none) :
    ((below settings walk.state path assignment.toElement).assigned path assignment.toElement).Nodup ∧
      ((below settings walk.state path assignment.toElement).assigned path assignment.toElement).Perm
        (assignment.leaves path) := by
  have isStatement : assignment.toElement.isOfKind Grammar.version3.expressionStatement = true := by
    simp [Assignment.toElement]
  exact assigned_of_assignment version noneAwaited settled
    (comes.notedAmong_statement version isStatement) complete

end Walk

namespace Assignment

/-- A token on the first line. -/
def Token.ofText (text : String) : Token :=
  { text := text, line := 1 }

theorem name_single (text : String) :
    ([] : List Trailer) = [] → isBracketed (Atom.name (.ofText text)).parts = false :=
  fun _ => rfl

/-- A name that is assigned to. -/
def Target.ofName {stars : Bool} (text : String) : Target stars :=
  .primary ⟨.name (.ofText text), [], name_single text⟩

/-- A name that is read. -/
def Expression.ofName (text : String) : Expression where
  tree := .ofKind Grammar.version3.test [.ofKind Grammar.version3.power
    [.ofKind Grammar.version3.atom [(Token.ofText text).toElement Kind.name]]]
  isExpression := rfl

/-- The assignment `a.b, (c, [d[i]]), = f(x).e = y`, with a construct around its first target. -/
def nested : Assignment false :=
  .cons
    (.cons
      (.plain [⟨306, by decide, by decide⟩] (.primary
        ⟨.name (.ofText "a"), [.dotted (.ofText ".") (.ofText "b")], by simp⟩))
      (.ofText ",")
      (.trailing
        (.plain [] (.bracketed .round (.ofText "(") (.ofText ")")
          (.cons (.plain [] (.ofName "c")) (.ofText ",")
            (.last (.plain [] (.bracketed .square (.ofText "[") (.ofText "]")
              (.last (.plain [] (.primary
                ⟨.name (.ofText "d"),
                 [.subscript (.ofText "[") (.ofText "]") (.ofName "i") []], by simp⟩)))))))))
        (.ofText ",")))
    (.ofText "=")
    (.last
      (.last (.plain [] (.primary
        ⟨.name (.ofText "f"),
         [.call (.ofText "(") (.ofText ")") [.ofName "x"], .dotted (.ofText ".") (.ofText "e")],
         by simp⟩)))
      (.ofText "=") (.ofName "y"))

/-- The assignment `u = v`. -/
def plain : Assignment false :=
  .last (.last (.plain [] (.ofName "u"))) (.ofText "=") (.ofName "v")

/-- Both assignments. -/
def plainAndNested : Element :=
  .ofKind 257 [plain.toElement, nested.toElement]

/-- What a walk passes before it comes to the second one. -/
def beforeNested : List (Path × Element) :=
  ([], plainAndNested) :: plain.toElement.preorder [1]

end Assignment

namespace Walk

open Assignment

theorem below_assigned_nested :
    ∃ walk pending, Comes {} plainAndNested walk (([2], nested.toElement) :: pending) ∧
      walk.state.awaited = [] ∧ walk.state.assigning = false ∧
      (below {} walk.state [2] nested.toElement).fault = none ∧
      ((below {} walk.state [2] nested.toElement).assigned [2] nested.toElement).Nodup ∧
      ((below {} walk.state [2] nested.toElement).assigned [2] nested.toElement).Perm
        [[2, 1, 1, 1, 1, 2, 2], [2, 1, 3, 1, 1, 2, 1, 1, 1, 1],
         [2, 1, 3, 1, 1, 2, 3, 1, 1, 2, 1, 1, 1, 1], [2, 3, 1, 1, 3, 2]] := by
  have begun : Comes {} plainAndNested {} [([], plainAndNested)] := .start
  have isOrder : Agenda.preorder [([], plainAndNested)] =
      beforeNested ++ nested.toElement.preorder [2] := rfl
  have sound : (visitEach {} {} beforeNested).fault = none := by decide +kernel
  rcases begun.visitEach isOrder sound with ⟨_ | ⟨next, pending⟩, comes, isRest⟩
  · cases isRest
  · have isNext : next = ([2], nested.toElement) := by
      rw [Agenda.preorder_cons] at isRest
      exact (List.cons.inj isRest).1
    subst isNext
    have noneAwaited : (visitEach {} {} beforeNested).state.awaited = [] := by decide +kernel
    have settled : (visitEach {} {} beforeNested).state.assigning = false := by decide +kernel
    have complete : (below {} (visitEach {} {} beforeNested).state [2] nested.toElement).fault =
        none := by
      rw [below_eq_visitEach]
      decide +kernel
    exact ⟨_, pending, comes, noneAwaited, settled, complete,
      below_assigned {} rfl plainAndNested _ [2] nested pending comes noneAwaited settled complete⟩

end Walk

end CrossRef
