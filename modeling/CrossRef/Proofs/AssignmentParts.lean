import CrossRef.Proofs.Bookkeeping
import CrossRef.Proofs.PendingNotes
import CrossRef.Proofs.Targets
import Mathlib.Data.List.Perm.Basic

/-!
# Parts of a walk that assign to names

What a visit does to the notes about assignments depends on the node.  A visit that neither is awaited
nor looks for anything leaves them alone.  An awaited test makes the walk look for a primary, and the
next primary looks ahead to the names or to the tests below it.  From what single visits do follows
what a run of visits comes to: which names were met noted as assigned to, and which notes are left.
-/

namespace CrossRef

/-- Whether a label is the mark of an assignment. -/
def Label.isAssignment : Label → Bool
  | .known mark => mark = .assignment
  | .other _ => false

namespace State

/-- Whether it is noted that the name at a place is assigned to. -/
def isNoted (state : State) (place : Path) : Bool :=
  (state.labelAt? place).any Label.isAssignment

theorem exists_mark_of_isNoted {state : State} {place : Path} (noted : state.isNoted place = true) :
    ∃ label, (place, label) ∈ state.marks := by
  unfold isNoted at noted
  cases held : state.labelAt? place with
  | none =>
      rw [held] at noted
      cases noted
  | some label =>
      rcases List.lookup_eq_some_iff.mp held with ⟨early, late, isSplit, _⟩
      exact ⟨label, by simp [isSplit]⟩

/-- The names among some nodes that are noted as assigned to. -/
def notedAmong (state : State) (nodes : List (Path × Element)) : List Path :=
  (nodes.filter fun entry => entry.2.isOfKind Kind.name && state.isNoted entry.1).map Prod.fst

theorem notedAmong_congr {first second : State} {nodes : List (Path × Element)}
    (same : ∀ entry ∈ nodes, first.isNoted entry.1 = second.isNoted entry.1) :
    first.notedAmong nodes = second.notedAmong nodes := by
  unfold notedAmong
  congr 1
  apply List.filter_congr
  intro entry member
  rw [same entry member]

theorem notedAmong_append (state : State) (first second : List (Path × Element)) :
    state.notedAmong (first ++ second) = state.notedAmong first ++ state.notedAmong second := by
  simp [notedAmong]

/-! ## Visits that have no part in an assignment -/

/-- Two states with the same notes about assignments, but for the labels of some places. -/
structure Idles (spent : List Path) (before after : State) : Prop where
  awaited : after.awaited = before.awaited
  assigning : after.assigning = before.assigning
  noted : ∀ place, place ∉ spent → after.isNoted place = before.isNoted place

variable {settings : Settings} {before after : State} {path : Path} {node : Element}
  {spent : List Path}

theorem Idles.refl (spent : List Path) (state : State) : Idles spent state state :=
  ⟨rfl, rfl, fun _ _ => rfl⟩

theorem Idles.trans {first second third : State} (early : Idles spent first second)
    (late : Idles spent second third) : Idles spent first third := by
  refine ⟨late.awaited.trans early.awaited, late.assigning.trans early.assigning, ?_⟩
  intro place apart
  rw [late.noted place apart, early.noted place apart]

theorem SameNotes.idles (same : SameNotes before after) (spent : List Path) :
    Idles spent before after := by
  refine ⟨same.awaited, same.assigning, ?_⟩
  intro place _
  unfold isNoted labelAt?
  rw [same.marks]

/-- A label that is noted for an unlabelled place counts if it is the mark of an assignment. -/
theorem isNoted_append {state : State} {place : Path} (unlabelled : state.labelAt? place = none)
    (label : Label) (other : Path) :
    ({ state with marks := state.marks ++ [(place, label)] } : State).isNoted other =
      (state.isNoted other || (other = place && label.isAssignment)) := by
  unfold isNoted
  rw [labelAt?_append]
  by_cases same : other = place
  · simp [same, unlabelled]
  · simp [same]

theorem setMark_idles (grammar : Grammar) (state : State) (place : Path) (terminal : Element)
    {mark : Mark} (other : mark ≠ .assignment) (spent : List Path) :
    Idles spent state (state.setMark grammar place terminal (.known mark)).state := by
  unfold setMark
  split
  · exact Idles.refl spent state
  next labelled =>
    split
    · exact Idles.refl spent state
    · split
      · refine ⟨rfl, rfl, ?_⟩
        intro another _
        rw [isNoted_append (by simpa using labelled)]
        simp [Label.isAssignment, other]
      · exact Idles.refl spent state

theorem take_declares {grammar : Grammar} {step : Step} (declares : step.Declares) (spent : List Path)
    (state : State) : Idles spent state (state.take grammar step).state := by
  cases step with
  | mark place terminal mark => exact setMark_idles grammar state place terminal declares.2 spent
  | demand verdict =>
      rcases verdict with fault | _ | _ <;> exact Idles.refl spent state
  | fail | openFunction | beginImport | countImports | finishImport => exact ⟨rfl, rfl, fun _ _ => rfl⟩
  | unmark | await | arrive | settle | indent | dedent | turn | add | finish => cases declares

theorem takeAll_declares (grammar : Grammar) {plan : Plan} (declares : plan.Consists Step.Declares)
    (spent : List Path) (state : State) : Idles spent state (state.takeAll grammar plan).state := by
  apply takeAll_preserves (motive := Idles spent state) _ (Idles.refl spent state)
  intro step member middle idles
  exact idles.trans (take_declares (declares step member) spent middle)

theorem take_spells {grammar : Grammar} {step : Step} (spells : step.Spells path) (state : State) :
    Idles [path] state (state.take grammar step).state := by
  cases step with
  | unmark place =>
      cases spells
      refine ⟨rfl, rfl, ?_⟩
      intro other apart
      unfold isNoted
      simp only [take, labelAt?_dropMark, if_neg (List.mem_singleton.not.mp apart)]
  | fail | indent => exact ⟨rfl, rfl, fun _ _ => rfl⟩
  | dedent => exact state.dedent_sameNotes.idles [path]
  | turn number => exact (state.commit_sameNotes _).idles [path]
  | add item => exact (state.addItem_sameNotes item).idles [path]
  | finish => exact (state.commit_sameNotes _).idles [path]
  | demand | mark | await | arrive | settle | openFunction | beginImport | countImports
  | finishImport => cases spells

/-- A terminal leaves the notes about assignments alone, but for its own. -/
theorem visitTerminal_idles {number : Int}
    (visited : before.visitTerminal settings path node number = ⟨after, none⟩) :
    Idles [path] before after := by
  have spells := Plan.spells_terminal settings before path node number
  have idles : Idles [path] before (before.visitTerminal settings path node number).state := by
    apply takeAll_preserves (motive := Idles [path] before) _ (Idles.refl [path] before)
    intro step member middle idles
    exact idles.trans (take_spells (spells step member) middle)
  rwa [visited] at idles

/-- A visit leaves the notes about assignments alone, unless the node is a statement, is awaited, or
may be what is looked for. -/
theorem Passes.idles (passes : before.Passes settings path node after)
    (noStatement : node.isOfKind settings.grammar.expressionStatement = false)
    (settled : before.assigning = false) (unawaited : path ∉ before.awaited) :
    Idles [path] before after := by
  cases passes with
  | construct isConstruct visited =>
      have declares : Plan.Consists Step.Declares
          (Plan.construct settings.grammar before path node) := by
        apply Plan.construct_declares _ settled unawaited
        intro kind hasKind
        rwa [← Element.isOfKind_eq hasKind]
      have idles := takeAll_declares settings.grammar declares [path] before
      rw [visitConstruct] at visited
      rwa [visited] at idles
  | terminal number isTerminal numbered visited => exact visitTerminal_idles visited

/-! ## Parts of a walk -/

/-- The names that were met noted as assigned to. -/
def assignedIn (meetings : List (State × Path × Element)) : List Path :=
  (meetings.filter fun meeting =>
    meeting.2.2.isOfKind Kind.name && meeting.1.isNoted meeting.2.1).map fun meeting => meeting.2.1

theorem assignedIn_append (first second : List (State × Path × Element)) :
    assignedIn (first ++ second) = assignedIn first ++ assignedIn second := by
  simp [assignedIn]

theorem nodup_assignedIn {meetings : List (State × Path × Element)}
    (once : ((meetings.map Prod.snd).map Prod.fst).Nodup) : (assignedIn meetings).Nodup := by
  rw [List.map_map] at once
  exact once.sublist (List.filter_sublist.map _)

/-- What a part of a walk comes to that assigns to the given names: it met them noted, and otherwise
only names that had been noted before; what it does not look for is left as it was elsewhere. -/
structure Assigns (before : State) (meetings : List (State × Path × Element)) (leaves : List Path)
    (after : State) : Prop where
  settled : after.assigning = false
  assigned : (assignedIn meetings).Perm (leaves ++ before.notedAmong (meetings.map Prod.snd))
  noted : ∀ place ∉ meetings.map (·.2.1), after.isNoted place = before.isNoted place
  awaited : ∀ place ∉ meetings.map (·.2.1), place ∈ after.awaited ↔ place ∈ before.awaited

/-- Some nodes, of which the ones at the given places are awaited when a walk comes to them, assign to
the given names.  The walk may be looking for what is assigned to. -/
structure Part (settings : Settings) (seeking : Bool) (nodes : List (Path × Element))
    (places leaves : List Path) : Prop where
  inside : places ⊆ nodes.map Prod.fst
  assigns : ∀ before meetings after, Passage settings before meetings after →
    meetings.map Prod.snd = nodes → before.assigning = seeking →
    (∀ place ∈ nodes.map Prod.fst, place ∈ before.awaited ↔ place ∈ places) →
    Assigns before meetings leaves after

variable {nodes : List (Path × Element)} {places leaves : List Path}

theorem part_nil (settings : Settings) : Part settings false [] [] [] := by
  refine ⟨List.nil_subset _, ?_⟩
  intro before meetings after passage isNodes settled _
  cases List.map_eq_nil_iff.mp isNodes
  cases passage
  exact ⟨settled, List.Perm.refl _, fun _ _ => rfl, fun _ _ => Iff.rfl⟩

theorem once_behind {early late : List (Path × Element)}
    (once : ((early ++ late).map Prod.fst).Nodup) : (late.map Prod.fst).Nodup := by
  rw [List.map_append] at once
  exact once.of_append_right

/-- Two parts that share no place, one behind the other. -/
theorem Part.append {early late : List (Path × Element)} {others more : List Path} {seeking : Bool}
    (first : Part settings seeking early places leaves) (second : Part settings false late others more)
    (once : ((early ++ late).map Prod.fst).Nodup) :
    Part settings seeking (early ++ late) (places ++ others) (leaves ++ more) := by
  rw [List.map_append, List.nodup_append'] at once
  refine ⟨?_, ?_⟩
  · rw [List.map_append]
    exact List.append_subset.mpr ⟨List.subset_append_of_subset_left _ first.inside,
      List.subset_append_of_subset_right _ second.inside⟩
  intro before meetings after passage isNodes seeks awaits
  rcases List.map_eq_append_iff.mp isNodes with ⟨firstMeetings, secondMeetings, rfl, isEarly, isLate⟩
  rcases passage.of_append with ⟨middle, firstPassage, secondPassage⟩
  have fst (some : List (State × Path × Element)) :
      some.map (·.2.1) = (some.map Prod.snd).map Prod.fst := by simp
  -- What one part expects is no place of the other, since no place is named twice.
  have firstAssigns : Assigns before firstMeetings leaves middle := by
    apply first.assigns before firstMeetings middle firstPassage isEarly seeks
    intro place member
    rw [awaits place (by simp [member]), List.mem_append,
      or_iff_left fun isOther => once.2.2 member (second.inside isOther)]
  have notEarly {place : Path} (member : place ∈ late.map Prod.fst) :
      place ∉ firstMeetings.map (·.2.1) := by
    rw [fst, isEarly]
    exact fun inEarly => once.2.2 inEarly member
  have secondAssigns : Assigns middle secondMeetings more after := by
    apply second.assigns middle secondMeetings after secondPassage isLate firstAssigns.settled
    intro place member
    rw [firstAssigns.awaited place (notEarly member), awaits place (by simp [member]), List.mem_append,
      or_iff_right fun isPlace => once.2.2 (first.inside isPlace) member]
  refine ⟨secondAssigns.settled, ?_, ?_, ?_⟩
  · have untouched : middle.notedAmong late = before.notedAmong late := by
      apply notedAmong_congr
      intro entry member
      exact firstAssigns.noted _ (notEarly (List.mem_map_of_mem member))
    have firstAssigned := firstAssigns.assigned
    have secondAssigned := secondAssigns.assigned
    rw [isEarly] at firstAssigned
    rw [isLate, untouched] at secondAssigned
    rw [assignedIn_append, isNodes, notedAmong_append, List.perm_iff_count]
    intro place
    have counts := List.perm_iff_count.mp (firstAssigned.append secondAssigned) place
    simp only [List.count_append] at counts ⊢
    omega
  · intro place outside
    rw [List.map_append, List.mem_append, not_or] at outside
    rw [secondAssigns.noted place outside.2, firstAssigns.noted place outside.1]
  · intro place outside
    rw [List.map_append, List.mem_append, not_or] at outside
    rw [secondAssigns.awaited place outside.2, firstAssigns.awaited place outside.1]

/-- A node that has no part in an assignment. -/
theorem part_idle (path : Path)
    (noStatement : node.isOfKind settings.grammar.expressionStatement = false) :
    Part settings false [(path, node)] [] [] := by
  refine ⟨List.nil_subset _, ?_⟩
  intro before meetings after passage isNodes settled awaits
  rcases List.map_eq_singleton_iff.mp isNodes with ⟨⟨state, place, element⟩, rfl, isNode⟩
  cases isNode
  cases passage with
  | cons passes rest =>
      cases rest
      have unawaited : path ∉ before.awaited := by simpa using awaits path
      have idles := passes.idles noStatement settled unawaited
      refine ⟨idles.assigning.trans settled, ?_, ?_, ?_⟩
      · by_cases isAssigned : (node.isOfKind Kind.name && before.isNoted path) = true
        · simp [assignedIn, notedAmong, isAssigned]
        · simp [assignedIn, notedAmong, isAssigned]
      · intro place outside
        exact idles.noted place (by simpa using outside)
      · intro place _
        rw [idles.awaited]

/-- Nodes that have no part in an assignment. -/
theorem part_idles (once : (nodes.map Prod.fst).Nodup)
    (noStatement : ∀ entry ∈ nodes, entry.2.isOfKind settings.grammar.expressionStatement = false) :
    Part settings false nodes [] [] := by
  induction nodes with
  | nil => exact part_nil settings
  | cons entry rest ih =>
      rw [List.forall_mem_cons] at noStatement
      have onceMore := (List.nodup_cons.mp once).2
      exact (part_idle entry.1 noStatement.1).append (ih onceMore noStatement.2) once

/-- What the visit of a node comes to that looks ahead to the nodes below it. -/
structure LooksAhead (before : State) (path : Path) (below : List (Path × Element))
    (places leaves : List Path) (after : State) : Prop where
  expected : ∀ place ∈ below.map Prod.fst, place ∈ after.awaited ↔ place ∈ places
  assigned : (after.notedAmong below).Perm (leaves ++ before.notedAmong below)
  noted : ∀ place ∉ path :: below.map Prod.fst, after.isNoted place = before.isNoted place
  awaited : ∀ place ∉ path :: below.map Prod.fst, place ∈ after.awaited ↔ place ∈ before.awaited

/-- A node that looks ahead, and the nodes below it. -/
theorem Part.cons {below : List (Path × Element)} {later more : List Path} {seeking seeksOn : Bool}
    (notName : node.isOfKind Kind.name = false) (inside : places ⊆ [path])
    (visit : ∀ before after, before.Passes settings path node after → before.assigning = seeking →
      (∀ place ∈ path :: below.map Prod.fst, place ∈ before.awaited ↔ place ∈ places) →
      after.assigning = seeksOn ∧ LooksAhead before path below later leaves after)
    (others : Part settings seeksOn below later more) :
    Part settings seeking ((path, node) :: below) places (leaves ++ more) := by
  refine ⟨fun place member => by simp [List.mem_singleton.mp (inside member)], ?_⟩
  intro before meetings after passage isNodes seeks awaits
  rcases List.map_eq_cons_iff.mp isNodes with ⟨⟨state, place, element⟩, rest, rfl, isNode, isBelow⟩
  cases isNode
  cases passage with
  | @cons _ middle _ _ _ _ passes passage =>
      rcases visit before middle passes seeks awaits with ⟨seeksOn, ahead⟩
      have assigns := others.assigns middle rest after passage isBelow seeksOn ahead.expected
      have fst : rest.map (·.2.1) = below.map Prod.fst := by
        rw [← isBelow]
        simp
      refine ⟨assigns.settled, ?_, ?_, ?_⟩
      · have assigned := assigns.assigned
        rw [isBelow] at assigned
        have skipped : assignedIn ((before, path, node) :: rest) = assignedIn rest := by
          simp [assignedIn, notName]
        have unnoted : before.notedAmong ((path, node) :: below) = before.notedAmong below := by
          simp [notedAmong, notName]
        rw [skipped, isNodes, unnoted, List.perm_iff_count]
        intro other
        have counts := List.perm_iff_count.mp assigned other
        have noted := List.perm_iff_count.mp ahead.assigned other
        simp only [List.count_append] at counts noted ⊢
        omega
      · intro other outside
        rw [List.map_cons, fst] at outside
        rw [assigns.noted other (fun member => outside (by simp [fst ▸ member])),
          ahead.noted other outside]
      · intro other outside
        rw [List.map_cons, fst] at outside
        rw [assigns.awaited other (fun member => outside (by simp [fst ▸ member])),
          ahead.awaited other outside]

/-! ## Visits that look ahead -/

/-- What the visit of a construct of a known kind does. -/
theorem Passes.takeAll {kind : Nat} {parts : List Element}
    (passes : before.Passes settings path (.ofKind kind parts) after)
    (isConstruct : Kind.firstConstruct ≤ kind) :
    before.takeAll settings.grammar
      (Plan.ofConstruct settings.grammar before path (.ofKind kind parts)
        (settings.grammar.constructOf (.int kind))) = ⟨after, none⟩ := by
  have sort : (Element.ofKind kind parts).isConstruct = .ok true :=
    Element.isConstruct_of_isOfKind (Element.isOfKind_ofKind kind parts kind ▸ by simp) isConstruct
  cases passes with
  | construct _ visited =>
      have hasKind : (Element.ofKind kind parts).kind = .ok (.int kind) := Element.kind_node _ _
      rw [visitConstruct, Plan.construct, hasKind] at visited
      exact visited
  | terminal number isTerminal numbered visited =>
      rw [sort] at isTerminal
      cases isTerminal

/-- A name that is noted anew among some nodes is one more. -/
theorem notedAmong_perm {place : Path} {terminal : Element} (once : (nodes.map Prod.fst).Nodup)
    (isNode : (place, terminal) ∈ nodes) (isName : terminal.isOfKind Kind.name = true)
    (unnoted : before.isNoted place = false)
    (notes : ∀ other, after.isNoted other = (before.isNoted other || decide (other = place))) :
    (after.notedAmong nodes).Perm (place :: before.notedAmong nodes) := by
  rcases List.append_of_mem isNode with ⟨early, late, rfl⟩
  rw [List.map_append, List.map_cons, List.nodup_middle, List.nodup_cons, List.mem_append,
    not_or] at once
  have same {some : List (Path × Element)} (apart : place ∉ some.map Prod.fst) :
      after.notedAmong some = before.notedAmong some := by
    apply notedAmong_congr
    intro entry member
    have differs : entry.1 ≠ place := by
      rintro rfl
      exact apart (List.mem_map_of_mem member)
    simp [notes, differs]
  have added : after.notedAmong ((place, terminal) :: late) = place :: before.notedAmong late := by
    rw [← same once.1.2]
    simp [notedAmong, isName, notes]
  have unadded : before.notedAmong ((place, terminal) :: late) = before.notedAmong late := by
    simp [notedAmong, unnoted]
  rw [notedAmong_append, notedAmong_append, same once.1.1, added, unadded]
  exact List.perm_middle

section

variable {below : List (Path × Element)} {parts : List Element}

/-- A visit that only awaits some of the nodes below. -/
theorem looksAhead_of_takeAll {plan : Plan} (notes : plan.Notes [] [] places)
    (taken : before.takeAll .version3 plan = ⟨after, none⟩)
    (unawaited : ∀ place ∈ path :: below.map Prod.fst, place ∈ before.awaited ↔ place ∈ [])
    (inside : places ⊆ below.map Prod.fst) :
    after.assigning = before.assigning ∧ LooksAhead before path below places [] after := by
  have comes : ∃ other, before.takeAll .version3 plan = ⟨other, none⟩ ∧
      before.Noted [] [] places other := takeAll_notes notes (by simp) (by simp)
  rcases comes with ⟨other, comesOff, noted⟩
  rw [comesOff] at taken
  cases taken
  have same (place : Path) : after.isNoted place = before.isNoted place := by
    unfold isNoted
    rw [noted.unmarked place (by simp)]
  refine ⟨by rw [noted.rest], ?_, ?_, fun place _ => same place, ?_⟩
  · intro place member
    rw [noted.awaited, unawaited place (List.mem_cons_of_mem path member)]
    simp
  · rw [notedAmong_congr fun entry _ => same entry.1]
    exact List.Perm.refl _
  · intro place outside
    rw [noted.awaited]
    constructor
    · rintro (old | ⟨other, member, isPlace⟩)
      · exact old
      · rw [isPlace] at outside
        exact absurd (List.mem_cons_of_mem path (inside member)) outside
    · exact Or.inl

/-- An awaited expression makes a walk look for what is assigned to. -/
theorem Part.expression (version : settings.grammar = .version3) {kind : Nat}
    (isTarget : kind ∈ Grammar.version3.targets) (others : Part settings true below [] leaves) :
    Part settings false ((path, .ofKind kind parts) :: below) [path] leaves := by
  have latest : Grammar.version3 ∈ Grammar.versions := List.mem_cons_self
  have isConstruct := Grammar.firstConstruct_le_target latest isTarget
  have notName : (Element.ofKind kind parts).isOfKind Kind.name = false := by
    have differs : kind ≠ Kind.name := by
      simp only [Kind.firstConstruct, Kind.name] at isConstruct ⊢
      omega
    simp [differs]
  rw [← List.nil_append leaves]
  apply Part.cons notName (List.Subset.refl _) _ others
  intro before after passes settled awaits
  have isAwaited : path ∈ before.awaited := (awaits path List.mem_cons_self).mpr List.mem_cons_self
  have taken := passes.takeAll isConstruct
  rw [version, Grammar.constructOf_target latest isTarget] at taken
  simp only [Plan.ofConstruct, Plan.expression, List.contains_eq_mem, isAwaited, decide_true, if_true,
    State.takeAll, take, arrive, settled, Bool.false_eq_true, if_false] at taken
  cases taken
  refine ⟨rfl, ?_, List.Perm.refl _, fun _ _ => rfl, ?_⟩
  · intro place member
    have only := awaits place (List.mem_cons_of_mem path member)
    simp only [List.mem_singleton] at only
    simp [only]
  · intro place outside
    have differs : place ≠ path := fun same => outside (by simp [same])
    simp [differs]

/-- A construct that is not looked at does not end the search. -/
theorem Part.link (version : settings.grammar = .version3) (link : Assignment.Link)
    (others : Part settings true below [] leaves) :
    Part settings true ((path, .ofKind link.kind parts) :: below) [] leaves := by
  have notName : (Element.ofKind link.kind parts).isOfKind Kind.name = false := by
    have isConstruct := link.isConstruct
    have differs : link.kind ≠ Kind.name := by
      simp only [Kind.firstConstruct, Kind.name] at isConstruct ⊢
      omega
    simp [differs]
  rw [← List.nil_append leaves]
  apply Part.cons notName (List.nil_subset _) _ others
  intro before after passes seeks awaits
  have taken := passes.takeAll link.isConstruct
  rw [version, link.unnoticed] at taken
  cases taken
  exact ⟨seeks, fun place member => awaits place (List.mem_cons_of_mem path member),
    List.Perm.refl _, fun _ _ => rfl, fun _ _ => Iff.rfl⟩

/-- A terminal that is no name does not end the search either. -/
theorem Part.terminal (isTerminal : node.isTerminal = true)
    (notName : node.isOfKind Kind.name = false) (apart : path ∉ below.map Prod.fst)
    (others : Part settings true below [] leaves) :
    Part settings true ((path, node) :: below) [] leaves := by
  rw [← List.nil_append leaves]
  apply Part.cons notName (List.nil_subset _) _ others
  intro before after passes seeks awaits
  have idles : Idles [path] before after := by
    cases passes with
    | construct isConstruct visited =>
        rw [Element.isTerminal_iff.mp isTerminal] at isConstruct
        cases isConstruct
    | terminal number _ numbered visited => exact visitTerminal_idles visited
  have same : after.notedAmong below = before.notedAmong below := by
    apply notedAmong_congr
    intro entry member
    apply idles.noted
    intro isHere
    rw [← List.mem_singleton.mp isHere] at apart
    exact apart (List.mem_map_of_mem member)
  refine ⟨idles.assigning.trans seeks, ?_, ?_, ?_, ?_⟩
  · intro place member
    rw [idles.awaited]
    exact awaits place (List.mem_cons_of_mem path member)
  · rw [same]
    exact List.Perm.refl _
  · intro place outside
    apply idles.noted
    intro isHere
    exact outside (List.mem_singleton.mp isHere ▸ List.mem_cons_self)
  · intro place _
    rw [idles.awaited]

/-- A primary that is looked for ends the search and looks ahead as the notes about its target do. -/
theorem Passes.looksAhead (version : settings.grammar = .version3)
    (passes : before.Passes settings path (.ofKind Grammar.version3.power parts) after)
    (seeks : before.assigning = true)
    (target : ∀ middle, ({ before with assigning := false } : State).takeAll .version3
        (Plan.target .version3 path (.ofKind Grammar.version3.power parts)) = ⟨middle, none⟩ →
      middle.assigning = false ∧
        LooksAhead { before with assigning := false } path below places leaves middle) :
    after.assigning = false ∧ LooksAhead before path below places leaves after := by
  have taken := passes.takeAll (by decide)
  have sort : Grammar.version3.constructOf (.int Grammar.version3.power) = .power := rfl
  rw [version, sort] at taken
  simp only [Plan.ofConstruct, seeks, if_true] at taken
  rcases exists_takeAll_of_append taken with ⟨middle, early, late⟩
  -- The calls of a primary are marked behind its target, and not as assignments.
  have calls := (Plan.calls_designates .version3 path (.ofKind Grammar.version3.power parts)).imp
    fun _ => Step.Designates.declares
  have idles := takeAll_declares .version3 calls [] middle
  rw [late] at idles
  rcases target middle early with ⟨settled, ahead⟩
  have same : after.notedAmong below = middle.notedAmong below :=
    notedAmong_congr fun entry _ => idles.noted entry.1 List.not_mem_nil
  refine ⟨idles.assigning.trans settled, ?_, ?_, ?_, ?_⟩
  · intro place member
    rw [idles.awaited, ahead.expected place member]
  · rw [same]
    exact ahead.assigned
  · intro place outside
    rw [idles.noted place List.not_mem_nil, ahead.noted place outside]
    rfl
  · intro place outside
    rw [idles.awaited, ahead.awaited place outside]

/-- A visit that only notes a name below as assigned to. -/
theorem looksAhead_of_setMark {place : Path} {terminal : Element}
    (marked : before.setMark .version3 place terminal (.known .assignment) = ⟨after, none⟩)
    (once : (below.map Prod.fst).Nodup) (isBelow : (place, terminal) ∈ below)
    (isName : terminal.isOfKind Kind.name = true)
    (unawaited : ∀ place ∈ path :: below.map Prod.fst, place ∈ before.awaited ↔ place ∈ []) :
    after.assigning = before.assigning ∧ LooksAhead before path below [] [place] after := by
  unfold setMark at marked
  split at marked
  next => cases marked
  next labelled =>
    have unlabelled : before.labelAt? place = none := by simpa using labelled
    split at marked
    next => cases marked
    next =>
      split at marked
      next =>
        cases marked
        have unnoted : before.isNoted place = false := by simp [isNoted, unlabelled]
        have notes (other : Path) := isNoted_append unlabelled (.known .assignment) other
        simp only [Label.isAssignment, decide_true, Bool.and_true] at notes
        refine ⟨rfl, ?_, notedAmong_perm once isBelow isName unnoted notes, ?_, fun _ _ => Iff.rfl⟩
        · intro other member
          exact unawaited other (List.mem_cons_of_mem path member)
        · intro other outside
          have differs : other ≠ place := by
            rintro rfl
            exact outside (List.mem_cons_of_mem path (List.mem_map_of_mem isBelow))
          simp [notes, differs]
      next => cases marked

end

end State

end CrossRef
