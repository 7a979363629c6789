import CrossRef.Proofs.Bookkeeping
import CrossRef.Proofs.MarkOrigins

/-!
# Terminals that are written with a mark

A name or a dot is written with the mark that is noted for its place, if there is one, and no other
terminal is written with a mark.  A mark stays noted until its terminal is reached.  Hence a walk that
comes to its end writes a name or a dot with a mark exactly if a construct that it met before noted
that mark for the place.
-/

namespace CrossRef

/-- Names and dots are terminals. -/
theorem Element.isConstruct_of_canHold {node : Element}
    (canHold : node.isOfKindIn [Kind.name, Kind.dot] = true) : node.isConstruct = .ok false := by
  rcases List.any_eq_true.mp canHold with ⟨kind, isNameOrDot, isKind⟩
  apply isTerminal_iff.mp
  apply isTerminal_of_isOfKind isKind
  simp only [List.mem_cons, List.not_mem_nil, or_false] at isNameOrDot
  rcases isNameOrDot with rfl | rfl <;> decide

namespace State

variable {settings : Settings} {grammar : Grammar} {before after start finish : State}
  {path place : Path} {node : Element} {number : Int} {mark : Mark}

/-! ## What a terminal leaves at the end of its line -/

/-- The mark of the symbol at the end of the line at hand. -/
def endMark? (state : State) : Option Mark :=
  state.line.bind fun line => line.items.getLast?.bind Item.mark?

theorem endMark?_addItem {item : Item} (added : before.addItem item = ⟨after, none⟩) :
    after.endMark? = item.mark? := by
  rcases addItem_cases added with ⟨line, longer, opened, lengthened, rfl⟩
  exact (Line.add_adds lengthened).mark

theorem endMark?_takeAll_add {items : List Item} (some : items ≠ [])
    (unmarked : ∀ item ∈ items, item.mark? = none)
    (added : before.takeAll grammar (items.map .add) = ⟨after, none⟩) : after.endMark? = none := by
  induction items generalizing before with
  | nil => exact absurd rfl some
  | cons item rest ih =>
      rw [List.forall_mem_cons] at unmarked
      rcases takeAll_add_cons added with ⟨middle, first, others⟩
      cases rest with
      | nil =>
          cases others
          rw [endMark?_addItem first, unmarked.1]
      | cons next rest => exact ih (List.cons_ne_nil next rest) unmarked.2 others

theorem Writes.unmarked {items : List Item} (writes : Writes settings before path node items) :
    items ≠ [] ∧ ∀ item ∈ items, item.mark? = none := by
  cases writes <;> simp [Item.mark?]

/-- A name or a dot is added to its line with the mark that is noted for it, or else without a mark. -/
theorem Reads.name_or_dot (reads : Reads settings before path node number after)
    (canHold : node.isOfKindIn [Kind.name, Kind.dot] = true) :
    (∃ line middle held, before.line = some line ∧ before.labelAt? path = some (.known held) ∧
        held ≠ .functionEnd ∧ before.turnTo line number node = ⟨middle, none⟩ ∧
        (middle.dropMark path).addItem (.symbol (some held) node.wording) = ⟨after, none⟩) ∨
      before.labelAt? path = none ∧ after.endMark? = none := by
  have isNameOrDot : node.isOfKind Kind.name = true ∨ node.isOfKind Kind.dot = true := by
    simpa using canHold
  have notOther (kind : Nat) (notName : Kind.name ≠ kind) (notDot : Kind.dot ≠ kind) :
      ¬ node.isOfKind kind = true := by
    rcases isNameOrDot with isName | isDot
    · simp [Element.not_isOfKind isName kind notName]
    · simp [Element.not_isOfKind isDot kind notDot]
  cases reads with
  | dedent isDedent => exact absurd isDedent (notOther _ (by decide) (by decide))
  | newline _ _ isNewline => exact absurd isNewline (notOther _ (by decide) (by decide))
  | indent _ _ _ isIndent => exact absurd isIndent (notOther _ (by decide) (by decide))
  | finish _ _ _ isEnd => exact absurd isEnd (notOther _ (by decide) (by decide))
  | marked line middle held opened _ isHeld noEnd present turned added =>
      exact Or.inl ⟨line, middle, held, opened, isHeld, noEnd, turned, added⟩
  | written line middle items opened notDedent writes turned added =>
      refine Or.inr ⟨?_, endMark?_takeAll_add writes.unmarked.1 writes.unmarked.2 added⟩
      cases writes with
      | quoted isString => exact absurd isString (notOther _ (by decide) (by decide))
      | string isString => exact absurd isString (notOther _ (by decide) (by decide))
      | keyword _ unmarked => exact unmarked
      | name _ unmarked => exact unmarked
      | other _ _ _ notName unmarked =>
          rcases isNameOrDot with isName | isDot
          · rw [notName] at isName
            cases isName
          · exact unmarked isDot

theorem Reads.endMark?_eq_some (reads : Reads settings before path node number after)
    (canHold : node.isOfKindIn [Kind.name, Kind.dot] = true) :
    after.endMark? = some mark ↔ before.labelAt? path = some (.known mark) := by
  rcases reads.name_or_dot canHold with ⟨_, _, held, _, isHeld, _, _, added⟩ | ⟨unlabelled, unmarked⟩
  · rw [endMark?_addItem added, isHeld]
    simp [Item.mark?]
  · simp [unlabelled, unmarked]

/-- Any other terminal with a text is written without a mark. -/
theorem Reads.endMark?_eq_none (reads : Reads settings before path node number after)
    (isText : node.isOfKindIn [Kind.name, Kind.dot, Kind.dedent, Kind.newline, Kind.indent,
      Kind.endMarker] = false) : after.endMark? = none := by
  simp only [Element.isOfKindIn_cons, Element.isOfKindIn_nil, Bool.or_false, Bool.or_eq_false_iff]
    at isText
  rcases isText with ⟨notName, notDot, notDedent, notNewline, notIndent, notEnd⟩
  cases reads with
  | dedent isDedent => simp [notDedent] at isDedent
  | newline _ _ isNewline => simp [notNewline] at isNewline
  | indent _ _ _ isIndent => simp [notIndent] at isIndent
  | finish _ _ _ isEnd => simp [notEnd] at isEnd
  | marked _ _ _ _ canHold => simp [notName, notDot] at canHold
  | written line middle items opened _ writes turned added =>
      exact endMark?_takeAll_add writes.unmarked.1 writes.unmarked.2 added

/-! ## Marks that are noted -/

/-- A construct's step notes one mark or none. -/
theorem take_labelled {step : Step} (prepares : step.Prepares)
    (taken : before.take grammar step = ⟨after, none⟩) :
    after.labelAt? place = some (.known mark) ↔
      before.labelAt? place = some (.known mark) ∨ ∃ terminal, step = .mark place terminal mark := by
  cases step with
  | mark other terminal noted =>
      simp only [take, setMark] at taken
      split at taken
      next => cases taken
      next labelled =>
        split at taken
        next => cases taken
        next =>
          split at taken
          next =>
            cases taken
            rw [labelAt?_append]
            by_cases same : place = other
            · subst same
              have unlabelled : before.labelAt? place = none := by simpa using labelled
              simp [unlabelled]
            · simp [same, Ne.symm same]
          next => cases taken
  | demand verdict =>
      rcases verdict with fault | _ | _ <;> cases taken
      simp
  | await other =>
      simp only [take, await] at taken
      cases taken
      split <;> simp [labelAt?]
  | arrive other =>
      simp only [take, arrive] at taken
      split at taken <;> cases taken
      simp [labelAt?]
  | settle | openFunction | beginImport | countImports | finishImport =>
      cases taken
      simp [labelAt?, finishImport]
  | fail fault => cases taken
  | unmark | indent | dedent | turn | add | finish => exact prepares.elim

theorem takeAll_labelled {plan : Plan} (prepares : plan.Consists Step.Prepares)
    (taken : before.takeAll grammar plan = ⟨after, none⟩) :
    after.labelAt? place = some (.known mark) ↔
      before.labelAt? place = some (.known mark) ∨ ∃ terminal, .mark place terminal mark ∈ plan := by
  induction plan generalizing before with
  | nil =>
      cases taken
      simp
  | cons step rest ih =>
      rw [Plan.consists_cons] at prepares
      rw [takeAll] at taken
      split at taken
      next next isNext =>
        rw [ih prepares.2 taken, take_labelled prepares.1 isNext, or_assoc]
        simp only [List.mem_cons, exists_or, @eq_comm _ _ step]
      next => cases taken

/-- A construct that is met in a state notes a mark for a place. -/
def Notes (grammar : Grammar) (meeting : State × Path × Element) (place : Path) (mark : Mark) : Prop :=
  meeting.2.2.isConstruct = .ok true ∧
    ∃ terminal, .mark place terminal mark ∈
      Plan.construct grammar meeting.1 meeting.2.1 meeting.2.2

/-- A visit notes what its construct notes, and leaves the other marks alone but for the terminal's
own. -/
theorem Passes.labelled (passes : before.Passes settings path node after) (notes : before.OnlyNotes)
    (apart : place ≠ path) :
    after.labelAt? place = some (.known mark) ↔
      before.labelAt? place = some (.known mark) ∨
        Notes settings.grammar (before, path, node) place mark := by
  cases passes with
  | construct isConstruct visited =>
      rw [takeAll_labelled (Plan.construct_prepares settings.grammar before path node) visited]
      simp [Notes, isConstruct]
  | terminal number isTerminal numbered visited =>
      have same : after.labelAt? place = before.labelAt? place := by
        rcases (visitTerminal_reads notes visited).sameNotes with same | same
        · unfold labelAt?
          rw [same.marks]
        · have dropped := labelAt?_dropMark before path place
          rw [if_neg apart] at dropped
          rw [← dropped]
          unfold labelAt?
          rw [same.marks]
      simp [same, Notes, isTerminal]

/-- The marks of places that a chain of visits has not come to are those that were noted before or on
the way. -/
theorem Passage.labelled {meetings : List (State × Path × Element)}
    (passage : Passage settings start meetings finish) (notes : start.OnlyNotes)
    (apart : place ∉ meetings.map (·.2.1)) :
    finish.labelAt? place = some (.known mark) ↔
      start.labelAt? place = some (.known mark) ∨
        ∃ meeting ∈ meetings, Notes settings.grammar meeting place mark := by
  induction passage with
  | nil state => simp
  | cons first others ih =>
      rw [List.map_cons, List.mem_cons, not_or] at apart
      rw [ih (first.onlyNotes notes) apart.2, first.labelled notes apart.1, or_assoc]
      simp

theorem Passes.unique {left right : State} (first : before.Passes settings path node left)
    (second : before.Passes settings path node right) : left = right := by
  cases first with
  | construct isConstruct visited =>
      cases second with
      | construct _ again =>
          rw [visited] at again
          cases again
          rfl
      | terminal number isTerminal =>
          rw [isConstruct] at isTerminal
          cases isTerminal
  | terminal number isTerminal numbered visited =>
      cases second with
      | construct isConstruct =>
          rw [isConstruct] at isTerminal
          cases isTerminal
      | terminal other _ isOther again =>
          rw [numbered] at isOther
          cases isOther
          rw [visited] at again
          cases again
          rfl

end State

namespace Walk

variable {settings : Settings} {tree : Element} {mark : Mark}

/-! ## What the record of a walk shows -/

/-- A walk left the terminal at a place with a symbol of the given mark at the end of the line. -/
def shows (walk : Walk) (mark : Mark) (place : Path) : Bool :=
  walk.visits.toList.any fun visit => visit.1 = place && visit.2.endMark? = some mark

/-- An entry of the record tells where the visit led that began with a meeting. -/
def Records (settings : Settings) (meeting : State × Path × Element) (visit : Path × State) : Prop :=
  visit.1 = meeting.2.1 ∧ meeting.1.Passes settings meeting.2.1 meeting.2.2 visit.2

/-- The entries that a chain of visits adds to a record belong to its meetings. -/
theorem visitEach_records {walk : Walk} {after : State} (sound : walk.fault = none)
    {meetings : List (State × Path × Element)}
    (passage : State.Passage settings walk.state meetings after) :
    ∃ later, (visitEach settings walk (meetings.map (·.2))).visits.toList =
        walk.visits.toList ++ later ∧
      (∀ meeting ∈ meetings, ∃ visit ∈ later, Records settings meeting visit) ∧
      ∀ visit ∈ later, ∃ meeting ∈ meetings, Records settings meeting visit := by
  generalize start : walk.state = before at passage
  induction passage generalizing walk with
  | nil state => exact ⟨[], by simp [visitEach], by simp, by simp⟩
  | @cons before middle after path node rest first others ih =>
      subst start
      have single := visitEach_of_passage sound (.cons first (.nil middle))
      have visited : visitEach settings walk [(path, node)] = walk.visit settings path node := by
        simp [visitEach]
      simp only [List.map_cons, List.map_nil, visited] at single
      rcases visit_passes single.1 with ⟨_, recorded⟩
      rcases ih single.1 single.2 with ⟨later, grown, isRecorded, isMet⟩
      have record : Records settings (walk.state, path, node) (path, middle) := ⟨rfl, first⟩
      refine ⟨(path, middle) :: later, ?_, ?_, ?_⟩
      · simp only [List.map_cons, visitEach, single.1, Option.isSome_none, Bool.false_eq_true, if_false]
        rw [grown, recorded, single.2]
        simp
      · rw [List.forall_mem_cons]
        refine ⟨⟨_, List.mem_cons_self, record⟩, ?_⟩
        intro meeting member
        rcases isRecorded meeting member with ⟨visit, inLater, records⟩
        exact ⟨visit, List.mem_cons_of_mem _ inLater, records⟩
      · rw [List.forall_mem_cons]
        refine ⟨⟨_, List.mem_cons_self, record⟩, ?_⟩
        intro visit member
        rcases isMet visit member with ⟨meeting, inRest, records⟩
        exact ⟨meeting, List.mem_cons_of_mem _ inRest, records⟩

/-- The record of a walk that comes to its end tells where the visits of all nodes led. -/
theorem ofTree_records (complete : (ofTree settings tree).fault = none) :
    (∀ meeting ∈ (ofTree settings tree).meetings tree,
      ∃ visit ∈ (ofTree settings tree).visits.toList, Records settings meeting visit) ∧
    ∀ visit ∈ (ofTree settings tree).visits.toList,
      ∃ meeting ∈ (ofTree settings tree).meetings tree, Records settings meeting visit := by
  have sound : ({} : Walk).fault = none := rfl
  rcases visitEach_records sound (passage_ofTree complete) with ⟨later, recorded, records⟩
  rw [meetings_nodes complete, ← ofTree_eq_visitEach] at recorded
  rw [recorded]
  simpa using records

/-- The record tells where a chain of visits led that is a part of the walk. -/
theorem recorded_last (complete : (ofTree settings tree).fault = none)
    {early visits late : List (State × Path × Element)} {start finish : State}
    (met : (ofTree settings tree).meetings tree = early ++ (visits ++ late))
    (passage : State.Passage settings start visits finish) {last : Path × Element}
    (isLast : (visits.map (·.2)).getLast? = some last) :
    (last.1, finish) ∈ (ofTree settings tree).visits.toList := by
  rw [List.getLast?_map, Option.map_eq_some_iff] at isLast
  rcases isLast with ⟨⟨state, path, node⟩, isLast, rfl⟩
  rcases List.getLast?_eq_some_iff.mp isLast with ⟨front, rfl⟩
  rcases passage.of_append with ⟨_, _, passage⟩
  cases passage with
  | cons passes rest =>
      cases rest
      rcases (ofTree_records complete).1 (state, path, node) (by simp [met]) with
        ⟨⟨place, after⟩, member, isPlace, again⟩
      cases isPlace
      rwa [passes.unique again]

/-- The record shows a mark at the place of a meeting if the visit led to a line that ends in it. -/
theorem shows_iff (complete : (ofTree settings tree).fault = none) {state : State} {path : Path}
    {node : Element} (met : (state, path, node) ∈ (ofTree settings tree).meetings tree) :
    (ofTree settings tree).shows mark path = true ↔
      ∃ after, state.Passes settings path node after ∧ after.endMark? = some mark := by
  rcases ofTree_records complete with ⟨isRecorded, isMet⟩
  simp only [shows, List.any_eq_true, Bool.and_eq_true, decide_eq_true_eq]
  constructor
  · rintro ⟨⟨place, after⟩, member, rfl, ends⟩
    rcases isMet _ member with ⟨⟨other, place, found⟩, again, rfl, passes⟩
    -- No place is met twice.
    have once : ((ofTree settings tree).meetings tree).map (·.2.1) |>.Nodup := by
      have places := Element.preorder_nodup [] tree
      rwa [← meetings_nodes complete, List.map_map] at places
    have same := List.inj_on_of_nodup_map once met again rfl
    cases same
    exact ⟨after, passes, ends⟩
  · rintro ⟨after, passes, ends⟩
    rcases isRecorded _ met with ⟨⟨place, left⟩, member, rfl, again⟩
    cases passes.unique again
    exact ⟨_, member, rfl, ends⟩

/-- Terminals with a text other than names and dots are written without a mark. -/
theorem shows_eq_false (complete : (ofTree settings tree).fault = none) {place : Path}
    {terminal : Element} (inTree : (place, terminal) ∈ tree.preorder [])
    (isTerminal : terminal.isTerminal = true)
    (isText : terminal.isOfKindIn [Kind.name, Kind.dot, Kind.dedent, Kind.newline, Kind.indent,
      Kind.endMarker] = false) : (ofTree settings tree).shows mark place = false := by
  rw [← meetings_nodes complete, List.mem_map] at inTree
  rcases inTree with ⟨⟨state, _, _⟩, member, isEntry⟩
  cases isEntry
  rw [Bool.eq_false_iff, ne_eq, shows_iff complete member]
  rintro ⟨after, passes, ends⟩
  rcases List.append_of_mem member with ⟨early, late, met⟩
  rcases passage_of_met complete met with ⟨_, passage, _, _⟩
  cases passes with
  | construct isConstruct =>
      rw [Element.isTerminal_iff.mp isTerminal] at isConstruct
      cases isConstruct
  | terminal number _ numbered visited =>
      have reads := State.visitTerminal_reads (passage.onlyNotes State.onlyNotes_empty) visited
      rw [reads.endMark?_eq_none isText] at ends
      cases ends

variable {early late : List (State × Path × Element)} {state : State} {path : Path} {node : Element}

/-- A walk writes a name or a dot with a mark exactly if that mark is noted when it comes to it. -/
theorem shows_iff_labelled (complete : (ofTree settings tree).fault = none)
    (met : (ofTree settings tree).meetings tree = early ++ (state, path, node) :: late)
    (canHold : node.isOfKindIn [Kind.name, Kind.dot] = true) :
    (ofTree settings tree).shows mark path = true ↔ state.labelAt? path = some (.known mark) := by
  have member : (state, path, node) ∈ (ofTree settings tree).meetings tree := by simp [met]
  rcases passage_of_met complete met with ⟨after, passage, passes, _⟩
  have notes := passage.onlyNotes State.onlyNotes_empty
  have written : after.endMark? = some mark ↔ state.labelAt? path = some (.known mark) := by
    cases passes with
    | construct isConstruct visited =>
        rw [Element.isConstruct_of_canHold canHold] at isConstruct
        cases isConstruct
    | terminal number isTerminal numbered visited =>
        exact (State.visitTerminal_reads notes visited).endMark?_eq_some canHold
  rw [shows_iff complete member, ← written]
  constructor
  · rintro ⟨other, again, ends⟩
    rwa [passes.unique again]
  · intro ends
    exact ⟨after, passes, ends⟩

/-- What a construct that a walk met has noted is a mark of its own sort, for a place below it that it
can label. -/
theorem labels_of_notes (version : settings.grammar ∈ Grammar.versions)
    (complete : (ofTree settings tree).fault = none) {place : Path}
    (met : (ofTree settings tree).meetings tree = early ++ (state, path, node) :: late)
    (notes : State.Notes settings.grammar (state, path, node) place mark) :
    mark ∈ (node.constructIn settings.grammar).marks ∧
      ∃ way, place = path ++ way ∧
        node.Labels settings.grammar (node.constructIn settings.grammar) way := by
  have isTarget := Grammar.test_mem_targets version
  rcases notes with ⟨isConstruct, terminal, isStep⟩
  rcases passage_of_met complete met with ⟨after, _, passes, _⟩
  cases passes with
  | terminal number isTerminal =>
      rw [isConstruct] at isTerminal
      cases isTerminal
  | construct _ visited =>
      constructor
      · cases hasKind : node.kind with
        | error fault =>
            simp only [Plan.construct, hasKind] at isStep
            simp at isStep
        | ok kind =>
            rw [Plan.construct_eq hasKind] at isStep
            exact (Plan.ofConstruct_aims isTarget state _ _ isStep).1
      · have isMarked := Plan.mem_markPlaces (State.isDoomed_of_takeAll visited) isStep
        exact ((Plan.construct_marks isTarget state path node).within place isMarked).2

/-- A node above another one is met before it. -/
theorem met_early_of_prefix (complete : (ofTree settings tree).fault = none)
    (met : (ofTree settings tree).meetings tree = early ++ (state, path, node) :: late)
    {meeting : State × Path × Element} (member : meeting ∈ (ofTree settings tree).meetings tree)
    (above : meeting.2.1 <+: path) (apart : meeting.2.1 ≠ path) : meeting ∈ early := by
  rw [met, List.mem_append, List.mem_cons] at member
  rcases member with inEarly | rfl | inLate
  · exact inEarly
  · exact absurd rfl apart
  · exfalso
    rcases List.append_of_mem inLate with ⟨between, behind, rfl⟩
    have nodes : tree.preorder [] =
        (early.map (·.2) ++ (path, node) :: between.map (·.2)) ++ meeting.2 :: behind.map (·.2) := by
      rw [← meetings_nodes complete, met]
      simp
    have isNode : (path, node) ∈ tree.preorder [] := by simp [nodes]
    have isAbove : meeting.2 ∈ tree.preorder [] := by simp [nodes]
    rcases Element.preorder_split isAbove with ⟨before, rest, isSplit⟩
    have inside := Element.mem_preorder_of_prefix isAbove isNode above
    rw [Agenda.preorder_children] at inside
    rw [Agenda.preorder_children meeting.2.1, List.cons_append] at isSplit
    have inPiece := (List.mem_cons.mp inside).resolve_left fun same => apart (congrArg Prod.fst same).symm
    -- The node would come both in front of the one above it and behind.
    have once := (Element.preorder_nodup [] tree).of_map
    rw [isSplit, ← (Element.split_unique nodes isSplit).1] at once
    have disjoint := (List.nodup_append.mp once).2.2
    exact disjoint (path, node) (by simp) (path, node) (by simp [inPiece]) rfl

/-- A walk writes a name or a dot with a mark exactly if a construct that it met before noted the mark
for that place. -/
theorem shows_iff_noted (version : settings.grammar ∈ Grammar.versions)
    (complete : (ofTree settings tree).fault = none) {place : Path} {terminal : Element}
    (inTree : (place, terminal) ∈ tree.preorder [])
    (canHold : terminal.isOfKindIn [Kind.name, Kind.dot] = true) :
    (ofTree settings tree).shows mark place = true ↔
      ∃ meeting ∈ (ofTree settings tree).meetings tree,
        State.Notes settings.grammar meeting place mark := by
  rw [← meetings_nodes complete, List.mem_map] at inTree
  rcases inTree with ⟨⟨state, _, _⟩, member, isTerminal⟩
  cases isTerminal
  rcases List.append_of_mem member with ⟨early, late, met⟩
  have apart : place ∉ early.map (·.2.1) := by
    have once := Element.preorder_nodup [] tree
    rw [← meetings_nodes complete, met, List.map_map, List.map_append, List.nodup_append] at once
    intro inEarly
    exact once.2.2 place inEarly place (by simp) rfl
  rcases passage_of_met complete met with ⟨_, passage, _, _⟩
  rw [shows_iff_labelled complete met canHold, passage.labelled State.onlyNotes_empty apart]
  have blank : ({} : State).labelAt? place ≠ some (.known mark) := by simp [State.labelAt?]
  rw [or_iff_right blank]
  constructor
  · rintro ⟨meeting, inEarly, notes⟩
    exact ⟨meeting, by simp [met, inEarly], notes⟩
  · rintro ⟨⟨other, base, outer⟩, isMet, notes⟩
    rcases List.append_of_mem isMet with ⟨_, _, split⟩
    rcases labels_of_notes version complete split notes with ⟨_, way, isPlace, labels⟩
    refine ⟨_, met_early_of_prefix complete met isMet ?_ ?_, notes⟩
    · exact isPlace ▸ List.prefix_append base way
    · intro same
      exact labels.ne_nil (List.append_right_eq_self.mp (isPlace.symm.trans same.symm))

end Walk

end CrossRef
