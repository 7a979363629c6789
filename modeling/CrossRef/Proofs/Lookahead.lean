import CrossRef.Proofs.Terminals

/-!
# What constructs look ahead to

A construct notes marks and awaited expressions for nodes below it, never for itself, for what stands
beside it or for what has been passed.  This file follows every plan to the places it names, and says
which marks each sort of construct can note.  Only a function definition notes a definition or enters
a function.
-/

namespace CrossRef

namespace Verdict

@[simp]
theorem all_eq_true {verdicts : List Verdict} :
    all verdicts = .ok true ↔ ∀ verdict ∈ verdicts, verdict = .ok true := by
  induction verdicts with
  | nil => simp [all]
  | cons first rest ih =>
      rw [List.forall_mem_cons, ← ih, all]
      rcases first with fault | _ | _ <;> simp [Verdict.and]

end Verdict

namespace Element

/-- Whether a node is of one of the given kinds. -/
def isOfKindIn (node : Element) (numbers : List Nat) : Bool :=
  numbers.any (node.isOfKind ·)

@[simp]
theorem isOfKindIn_nil (node : Element) : node.isOfKindIn [] = false := rfl

@[simp]
theorem isOfKindIn_cons (node : Element) (number : Nat) (numbers : List Nat) :
    node.isOfKindIn (number :: numbers) = (node.isOfKind number || node.isOfKindIn numbers) := rfl

/-- A path from an element to one inside it that never leads through a kind. -/
inductive Inside : Element → Path → Element → Prop where
  | here (node : Element) : Inside node [] node
  | descend {node child target : Element} {index : Nat} {rest : Path}
      (isChild : node.elements[index + 1]? = some child) (inside : Inside child rest target) :
      Inside node ((index + 1) :: rest) target

/-- What stands at a place below the node at a path. -/
def Under (path : Path) (node : Element) (place : Path) (target : Element) : Prop :=
  ∃ rest, rest ≠ [] ∧ place = path ++ rest ∧ node.Inside rest target

theorem under_child {path : Path} {node child : Element} {index : Nat}
    (isChild : node.elements[index + 1]? = some child) : node.Under path (path ++ [index + 1]) child :=
  ⟨[index + 1], by simp, rfl, .descend isChild (.here child)⟩

/-- What is below a child is below its parent. -/
theorem Under.through {path place : Path} {node child target : Element} {index : Nat}
    (isChild : node.elements[index + 1]? = some child)
    (under : child.Under (path ++ [index + 1]) place target) : node.Under path place target := by
  rcases under with ⟨rest, _, isPlace, inside⟩
  refine ⟨(index + 1) :: rest, by simp, ?_, .descend isChild inside⟩
  rw [isPlace, List.append_assoc]
  rfl

/-- An entry of an element is one of its elements, or a character. -/
theorem entry_cases {element next : Element} {position : Int}
    (found : element.entry position = .ok next) :
    (∃ place, place? element.elements.length position = some place ∧
      element.elements[place]? = some next) ∨ ∃ text, next = .text text := by
  have picked {elements : List Element} (isEntry : pick? elements position = some next) :
      ∃ place, place? elements.length position = some place ∧ elements[place]? = some next :=
    Option.bind_eq_some_iff.mp isEntry
  cases element with
  | node elements | list elements =>
      left
      apply picked
      simp only [entry] at found
      split at found
      next isEntry =>
        cases found
        exact isEntry
      next => cases found
  | text value =>
      right
      simp only [entry] at found
      split at found
      next char _ =>
        cases found
        exact ⟨_, rfl⟩
      next => cases found
  | null | bool value | int value | float value => cases found

@[simp]
theorem isOfKind_text (text : String) (number : Nat) :
    (Element.text text).isOfKind number = false := by
  unfold isOfKind
  split
  next kind hasKind =>
    rcases entry_cases hasKind with ⟨place, _, isElement⟩ | ⟨char, rfl⟩
    · simp [elements] at isElement
    · rfl
  next => rfl

/-- What is found in a text is text. -/
theorem locate_text {path place : Path} {text : String} {route : List Int} {target : Element}
    (located : locate path (.text text) route = .ok (place, target)) :
    ∃ found, target = .text found := by
  induction route generalizing path text with
  | nil =>
      cases located
      exact ⟨text, rfl⟩
  | cons position rest ih =>
      rw [locate] at located
      split at located
      next => cases located
      next next found =>
        rcases entry_cases found with ⟨index, _, isElement⟩ | ⟨char, rfl⟩
        · simp [elements] at isElement
        · exact ih located

theorem place_eq {length place : Nat} {position : Int}
    (isPlace : place? length position = some place) :
    (place : Int) = (if position < 0 then position + length else position) := by
  simp only [place?] at isPlace
  generalize (if position < 0 then position + (length : Int) else position) = offset at isPlace ⊢
  split at isPlace
  next inside =>
    cases isPlace
    simp only [Bool.and_eq_true, decide_eq_true_eq] at inside
    omega
  next => cases isPlace

/-- A position counted from the front is that of an element, unless the element is a text. -/
theorem entry_front {element next : Element} (index : Nat)
    (found : element.entry ((index + 1 : Nat) : Int) = .ok next) :
    element.elements[index + 1]? = some next ∨ ∃ text, next = .text text := by
  rcases entry_cases found with ⟨place, isPlace, isElement⟩ | isText
  · left
    have isOffset := place_eq isPlace
    rw [if_neg (by omega)] at isOffset
    have same : place = index + 1 := by omega
    rwa [same] at isElement
  · exact Or.inr isText

theorem place_pos {length place : Nat} {position : Int} (positive : 0 < position)
    (isPlace : place? length position = some place) : 0 < place := by
  have isOffset := place_eq isPlace
  rw [if_neg (by omega)] at isOffset
  omega

/-- A route that leads past the kinds to something that has a kind leads to a place below. -/
theorem locate_under {path place : Path} {element target : Element} {position : Int}
    {route : List Int} {number : Nat}
    (located : locate path element (position :: route) = .ok (place, target))
    (hasKind : target.isOfKind number = true)
    (lands : ∀ first, place? element.elements.length position = some first → 0 < first)
    (forward : ∀ later ∈ route, 0 < later) : element.Under path place target := by
  induction route generalizing path element position with
  | nil =>
      rw [locate] at located
      split at located
      next => cases located
      next next found =>
        cases located
        rcases entry_cases found with ⟨index, isPlace, isElement⟩ | ⟨text, rfl⟩
        · rcases Nat.exists_eq_succ_of_ne_zero (Nat.ne_of_gt (lands index isPlace)) with ⟨index, rfl⟩
          rw [isPlace]
          exact under_child isElement
        · simp at hasKind
  | cons later route ih =>
      rw [locate] at located
      split at located
      next => cases located
      next next found =>
        rcases entry_cases found with ⟨index, isPlace, isElement⟩ | ⟨text, rfl⟩
        · rcases Nat.exists_eq_succ_of_ne_zero (Nat.ne_of_gt (lands index isPlace)) with ⟨index, rfl⟩
          rw [isPlace] at located
          apply Under.through isElement
          apply ih located
          · intro first isFirst
            exact place_pos (forward later List.mem_cons_self) isFirst
          · intro other member
            exact forward other (List.mem_cons_of_mem later member)
        · rcases locate_text located with ⟨text, rfl⟩
          simp at hasKind

theorem mem_numbered {element child : Element} {start position : Nat}
    (member : (position, child) ∈ element.numbered start) :
    start ≤ position ∧ element.elements[position]? = some child := by
  simp only [numbered, List.mem_map, Prod.mk.injEq, Prod.exists] at member
  rcases member with ⟨found, index, inTail, rfl, rfl⟩
  rcases List.mem_iff_getElem?.mp inTail with ⟨offset, isEntry⟩
  rw [List.getElem?_drop, List.getElem?_zipIdx] at isEntry
  rcases Option.map_eq_some_iff.mp isEntry with ⟨other, isElement, same⟩
  simp only [Nat.zero_add, Prod.mk.injEq] at same
  rw [← same.1, ← same.2]
  exact ⟨Nat.le_add_right start offset, isElement⟩

theorem under_of_numbered {path : Path} {node child : Element} {start position : Nat}
    (member : (position, child) ∈ node.numbered (start + 1)) :
    node.Under path (path ++ [position]) child := by
  rcases mem_numbered member with ⟨behindKind, isElement⟩
  rcases Nat.exists_eq_add_of_le' behindKind with ⟨offset, rfl⟩
  exact under_child isElement

end Element

/-- The construct that a node is. -/
def Element.constructIn (grammar : Grammar) (node : Element) : Construct :=
  match node.kind with
  | .ok kind => grammar.constructOf kind
  | .error _ => .other

theorem Element.exists_kind {node : Element} {number : Nat} (isKind : node.isOfKind number = true) :
    ∃ kind, node.kind = .ok kind ∧ kind.isNumber number = true := by
  cases hasKind : node.kind with
  | error fault => simp [isOfKind, hasKind] at isKind
  | ok kind =>
      rw [isOfKind_eq hasKind] at isKind
      exact ⟨kind, rfl, isKind⟩

theorem Element.constructIn_eq {grammar : Grammar} {node kind : Element}
    (hasKind : node.kind = .ok kind) : node.constructIn grammar = grammar.constructOf kind := by
  simp [constructIn, hasKind]

namespace Construct

/-- The marks that a construct can note. -/
def marks : Construct → List Mark
  | .globalStatement => [.globalName]
  | .functionDefinition => [.definition]
  | .decorated => [.call]
  | .importFrom | .dottedName => [.inclusion]
  | .classDefinition => [.classDefinition]
  | .power => [.assignment, .call]
  | .importName | .importedNames | .expressionStatement | .expression | .other => []

end Construct

namespace Grammar

/-- The versions of the indexed language. -/
def versions : List Grammar := [version3, version27, version26]

theorem mem_versions {grammar : Grammar} :
    grammar ∈ versions ↔ grammar = version3 ∨ grammar = version27 ∨ grammar = version26 := by
  simp [versions]

/-- Which construct a kind stands for depends only on its number. -/
theorem constructOf_eq {grammar : Grammar} {kind : Element} {number : Nat}
    (isNumber : kind.isNumber number = true) :
    grammar.constructOf kind = grammar.constructOf (.int number) := by
  have same (other : Nat) : kind.isNumber other = (Element.int number).isNumber other := by
    rw [Bool.eq_iff_iff]
    constructor
    · intro isOther
      rw [Element.isNumber_unique isNumber isOther]
      simp [Element.isNumber]
    · intro isOther
      have equal : (number : Int) = other := by simpa [Element.isNumber] using isOther
      rwa [← Int.ofNat.inj equal]
  have sameIn (numbers : List Nat) :
      kind.isNumberIn numbers = (Element.int number).isNumberIn numbers := by
    unfold Element.isNumberIn
    simp only [same]
  simp only [constructOf, same, sameIn]

variable {grammar : Grammar}

theorem constructIn_of_isOfKind {node : Element} {number : Nat}
    (isKind : node.isOfKind number = true) :
    node.constructIn grammar = grammar.constructOf (.int number) := by
  rcases Element.exists_kind isKind with ⟨kind, hasKind, isNumber⟩
  rw [Element.constructIn_eq hasKind, constructOf_eq isNumber]

theorem test_mem_targets (version : grammar ∈ versions) : grammar.test ∈ grammar.targets := by
  rcases mem_versions.mp version with rfl | rfl | rfl <;> decide

theorem constructOf_target (version : grammar ∈ versions) {number : Nat}
    (isTarget : number ∈ grammar.targets) : grammar.constructOf (.int number) = .expression := by
  rcases mem_versions.mp version with rfl | rfl | rfl <;>
    simp only [version3, version27, version26, List.mem_cons, List.not_mem_nil, or_false] at isTarget
  · rcases isTarget with rfl | rfl <;> rfl
  · rcases isTarget with rfl
    rfl
  · rcases isTarget with rfl
    rfl

theorem constructOf_functionDefinition (version : grammar ∈ versions) :
    grammar.constructOf (.int grammar.functionDefinition) = .functionDefinition := by
  rcases mem_versions.mp version with rfl | rfl | rfl <;> rfl

end Grammar

namespace Step

/-- A step that looks ahead to places below a node, and notes no other marks than the given ones. -/
def Aims (grammar : Grammar) (path : Path) (node : Element) (marks : List Mark) : Step → Prop
  | .mark place terminal noted =>
    noted ∈ marks ∧ ∀ number, terminal.isOfKind number = true → node.Under path place terminal
  | .await place =>
    ∃ target, target.isOfKindIn grammar.targets = true ∧ node.Under path place target
  | .openFunction => Mark.definition ∈ marks
  | _ => True

end Step

namespace Plan

/-- A plan all of whose steps look ahead to places below a node. -/
def Aims (grammar : Grammar) (path : Path) (node : Element) (marks : List Mark) (plan : Plan) : Prop :=
  ∀ step ∈ plan, step.Aims grammar path node marks

variable {grammar : Grammar} {path : Path} {node : Element} {marks : List Mark}

@[simp]
theorem aims_nil : Aims grammar path node marks [] :=
  consists_nil

@[simp]
theorem aims_cons (step : Step) (rest : Plan) :
    Aims grammar path node marks (step :: rest) ↔
      step.Aims grammar path node marks ∧ Aims grammar path node marks rest :=
  consists_cons step rest

@[simp]
theorem aims_append (first second : Plan) :
    Aims grammar path node marks (first ++ second) ↔
      Aims grammar path node marks first ∧ Aims grammar path node marks second :=
  consists_append first second

theorem aims_flatMap {Entry : Type} {entries : List Entry} {plan : Entry → Plan}
    (each : ∀ entry ∈ entries, Aims grammar path node marks (plan entry)) :
    Aims grammar path node marks (entries.flatMap plan) :=
  consists_flatMap each

theorem aims_fail (fault : Fault) : Aims grammar path node marks [.fail fault] :=
  consists_fail (fun _ => trivial) fault

theorem aims_branch {verdict : Verdict} {yes no : Plan}
    (ifYes : verdict = .ok true → Aims grammar path node marks yes)
    (ifNo : Aims grammar path node marks no) :
    Aims grammar path node marks (branch verdict yes no) :=
  consists_branch (fun _ => trivial) ifYes ifNo

/-- What looks ahead from a child looks ahead from its parent. -/
theorem Aims.through {child : Element} {index : Nat} {plan : Plan}
    (isChild : node.elements[index + 1]? = some child)
    (aims : Aims grammar (path ++ [index + 1]) child marks plan) :
    Aims grammar path node marks plan := by
  intro step member
  have stepAims := aims step member
  cases step with
  | mark place terminal mark =>
      refine ⟨stepAims.1, ?_⟩
      intro number hasKind
      exact Element.Under.through isChild (stepAims.2 number hasKind)
  | await place =>
      rcases stepAims with ⟨target, isTarget, under⟩
      exact ⟨target, isTarget, Element.Under.through isChild under⟩
  | openFunction => exact stepAims
  | fail | demand | unmark | arrive | settle | beginImport | countImports | finishImport | indent
  | dedent | turn | add | finish => trivial

/-- Nothing can be looked ahead to in a text. -/
theorem Aims.of_text {text : String} {plan : Plan}
    (aims : Aims grammar path (.text text) marks plan) (other : Path) (around : Element) :
    Aims grammar other around marks plan := by
  have nothing {place : Path} {target : Element}
      (under : (Element.text text).Under path place target) : False := by
    rcases under with ⟨rest, nonempty, _, inside⟩
    cases inside with
    | here => exact nonempty rfl
    | descend isChild inside => simp [Element.elements] at isChild
  intro step member
  have stepAims := aims step member
  cases step with
  | mark place terminal mark =>
      refine ⟨stepAims.1, ?_⟩
      intro number hasKind
      exact (nothing (stepAims.2 number hasKind)).elim
  | await place =>
      rcases stepAims with ⟨target, _, under⟩
      exact (nothing under).elim
  | openFunction => exact stepAims
  | fail | demand | unmark | arrive | settle | beginImport | countImports | finishImport | indent
  | dedent | turn | add | finish => trivial

/-- What looks ahead from an entry looks ahead from the element that has it. -/
theorem Aims.through_entry {child : Element} {plan : Plan} (index : Nat)
    (found : node.entry ((index + 1 : Nat) : Int) = .ok child)
    (aims : Aims grammar (path ++ [index + 1]) child marks plan) :
    Aims grammar path node marks plan := by
  rcases Element.entry_front index found with isElement | ⟨text, rfl⟩
  · exact aims.through isElement
  · exact aims.of_text path node

theorem Aims.through_numbered {child : Element} {start position : Nat} {plan : Plan}
    (member : (position, child) ∈ node.numbered (start + 1))
    (aims : Aims grammar (path ++ [position]) child marks plan) :
    Aims grammar path node marks plan := by
  rcases Element.mem_numbered member with ⟨behindKind, isElement⟩
  rcases Nat.exists_eq_add_of_le' behindKind with ⟨offset, rfl⟩
  exact aims.through isElement

theorem markAt_aims {position : Int} {route : List Int} {mark : Mark} (allowed : mark ∈ marks)
    (lands : ∀ first, Element.place? node.elements.length position = some first → 0 < first)
    (forward : ∀ later ∈ route, 0 < later) :
    Aims grammar path node marks (markAt path node (position :: route) mark) := by
  unfold markAt
  split
  next place terminal located =>
    rw [aims_cons]
    refine ⟨⟨allowed, ?_⟩, aims_nil⟩
    intro number hasKind
    exact Element.locate_under located hasKind lands forward
  next => exact aims_fail _

/-- A route that only counts from the front leads below. -/
theorem markAt_forward {position : Int} {route : List Int} {mark : Mark} (allowed : mark ∈ marks)
    (forward : ∀ later ∈ position :: route, 0 < later) :
    Aims grammar path node marks (markAt path node (position :: route) mark) := by
  apply markAt_aims allowed
  · intro first isFirst
    exact Element.place_pos (forward position List.mem_cons_self) isFirst
  · intro later member
    exact forward later (List.mem_cons_of_mem position member)

/-- A route that starts from the end leads below if the node is long enough. -/
theorem markAt_backward {position : Int} {route : List Int} {mark : Mark} (allowed : mark ∈ marks)
    (negative : position < 0) (long : 0 < position + node.elements.length)
    (forward : ∀ later ∈ route, 0 < later) :
    Aims grammar path node marks (markAt path node (position :: route) mark) := by
  apply markAt_aims allowed _ forward
  intro first isFirst
  have isOffset := Element.place_eq isFirst
  rw [if_pos negative] at isOffset
  omega

theorem markAll_aims {mark : Mark} (allowed : mark ∈ marks) :
    Aims grammar path node marks (markAll path node mark) := by
  intro step member
  rcases List.mem_map.mp member with ⟨⟨position, terminal⟩, isEntry, rfl⟩
  exact ⟨allowed, fun _ _ => Element.under_of_numbered isEntry⟩

theorem globalStatement_aims :
    Aims grammar path node Construct.globalStatement.marks (globalStatement path node) := by
  apply aims_flatMap
  rintro ⟨position, child⟩ member
  have isEntry := (List.mem_filter.mp member).1
  simp only [aims_cons]
  exact ⟨trivial, ⟨List.mem_singleton_self _, fun _ _ => Element.under_of_numbered isEntry⟩, aims_nil⟩

theorem functionName_aims {position : Int} (positive : 0 < position) :
    Aims grammar path node Construct.functionDefinition.marks (functionName path node position) := by
  simp only [functionName, aims_cons]
  refine ⟨trivial, markAt_forward (List.mem_singleton_self _) ?_⟩
  intro later member
  rw [List.mem_singleton.mp member]
  omega

theorem functionDefinition_aims :
    Aims grammar path node Construct.functionDefinition.marks
      (functionDefinition grammar path node) := by
  simp only [functionDefinition, aims_cons]
  refine ⟨List.mem_singleton_self _, aims_branch (fun _ => ?_) ?_⟩
  · exact functionName_aims (by decide)
  · exact functionName_aims (by decide)

theorem classDefinition_aims :
    Aims grammar path node Construct.classDefinition.marks (classDefinition path node) := by
  simp only [classDefinition, aims_cons]
  exact ⟨trivial, markAt_forward (List.mem_singleton_self _) (by simp)⟩

theorem decoratorName_aims (path : Path) (dotted : Element) :
    Aims grammar path dotted Construct.decorated.marks (decoratorName path dotted) := by
  unfold decoratorName
  split
  next => exact aims_fail _
  next length hasLength =>
    split
    next => exact aims_fail _
    next notShort =>
      have call : Aims grammar path dotted Construct.decorated.marks
          (markAt path dotted [-1] .call) := by
        apply markAt_aims (List.mem_singleton_self _) _ (by simp)
        intro first isFirst
        have isOffset := Element.place_eq isFirst
        rw [if_pos (by decide)] at isOffset
        cases dotted with
        | node elements | list elements =>
            simp only [Element.length, Except.ok.injEq] at hasLength
            simp only [Element.elements, hasLength] at isOffset
            omega
        | text value =>
            simp only [Element.elements, List.length_nil] at isOffset
            omega
        | null | bool value | int value | float value => cases hasLength
      split
      next => exact call
      next =>
        rw [aims_cons]
        exact ⟨trivial, aims_branch (fun _ => aims_nil) call⟩

theorem decorator_aims (path : Path) (node : Element) :
    Aims grammar path node Construct.decorated.marks (decorator grammar path node) := by
  simp only [decorator, aims_append, aims_cons]
  refine ⟨⟨trivial, trivial, trivial, aims_nil⟩, ?_⟩
  split
  next => exact aims_fail _
  next dotted found => exact (decoratorName_aims (path ++ [2]) dotted).through_entry 1 found

theorem decorated_aims :
    Aims grammar path node Construct.decorated.marks (decorated grammar path node) := by
  refine aims_branch (fun _ => ?_) aims_nil
  split
  next => exact aims_fail _
  next list found =>
    refine Aims.through_entry 0 found (aims_flatMap ?_)
    rintro ⟨position, child⟩ member
    apply Aims.through_numbered member
    rw [List.append_assoc]
    exact decorator_aims (path ++ [1, position]) child

theorem moduleName_aims (sort : String) (entries : List (Nat × Element))
    (numbered : ∀ entry ∈ entries, entry ∈ node.numbered 2) :
    Aims grammar path node [.inclusion] (moduleName grammar path sort entries) := by
  induction entries with
  | nil => exact aims_fail _
  | cons entry rest ih =>
      rcases entry with ⟨position, child⟩
      have here := numbered _ List.mem_cons_self
      unfold moduleName
      split
      next => exact aims_fail _
      next kind hasKind =>
        split
        next =>
          apply ih
          intro later member
          exact numbered later (List.mem_cons_of_mem _ member)
        next =>
          split
          next => exact (markAll_aims (List.mem_singleton_self _)).through_numbered here
          next => exact aims_nil

theorem dottedName_aims (state : State) :
    Aims grammar path node Construct.dottedName.marks (dottedName state path node) := by
  unfold dottedName
  split
  · split
    · rw [aims_append, aims_cons]
      exact ⟨markAll_aims (List.mem_singleton_self _), trivial, aims_nil⟩
    · exact aims_fail _
  · exact aims_nil

/-- The members that a list awaits are of the kinds that can be assigned to. -/
theorem awaitMembers_aims {kinds : List Nat} (targets : ∀ kind ∈ kinds, kind ∈ grammar.targets)
    (entries : List (Nat × Element)) (numbered : ∀ entry ∈ entries, entry ∈ node.numbered 1) :
    Aims grammar path node marks (awaitMembers kinds path entries) := by
  induction entries with
  | nil => exact aims_nil
  | cons entry rest ih =>
      rcases entry with ⟨position, child⟩
      have restAims := ih fun later member => numbered later (List.mem_cons_of_mem _ member)
      unfold awaitMembers
      split
      next => exact aims_fail _
      next kind hasKind =>
        split
        next => exact restAims
        next =>
          split
          next isMember =>
            rw [aims_cons]
            refine ⟨?_, restAims⟩
            rcases List.any_eq_true.mp isMember with ⟨number, inKinds, isNumber⟩
            refine ⟨child, List.any_eq_true.mpr ⟨number, targets number inKinds, ?_⟩,
              Element.under_of_numbered (numbered _ List.mem_cons_self)⟩
            exact (Element.isOfKind_eq hasKind number).trans isNumber
          next => exact aims_nil

theorem targetList_aims (path : Path) (node : Element) :
    Aims grammar path node marks (targetList grammar path node) := by
  simp only [targetList, aims_cons]
  exact ⟨trivial, awaitMembers_aims (fun _ => id) _ fun _ => id⟩

theorem targetChain_aims (entries : List (Nat × Element))
    (numbered : ∀ entry ∈ entries, entry ∈ node.numbered 3) :
    Aims grammar path node marks (targetChain grammar path entries) := by
  induction entries with
  | nil => exact aims_nil
  | cons entry rest ih =>
      rcases entry with ⟨position, child⟩
      have restAims := ih fun later member => numbered later (List.mem_cons_of_mem _ member)
      unfold targetChain
      split
      next => exact aims_fail _
      next kind hasKind =>
        split
        next => exact restAims
        next =>
          split
          next =>
            rw [aims_append]
            refine ⟨?_, restAims⟩
            exact (targetList_aims _ child).through_numbered (numbered _ List.mem_cons_self)
          next => exact aims_nil

theorem augmentedTarget_aims (isTarget : grammar.test ∈ grammar.targets) :
    Aims grammar path node marks (augmentedTarget grammar path node) := by
  unfold augmentedTarget
  split
  next => exact aims_fail _
  next kind followed =>
    split
    next isTest =>
      simp only [Element.follow] at followed
      split at followed
      next list isList =>
        split at followed
        next target isEntry =>
          have hasKind : target.isOfKind grammar.test = true := by
            split at followed
            next found isKind =>
              cases followed
              simpa [Element.isOfKind, Element.kind, isKind] using isTest
            next => cases followed
          apply Aims.through_entry 0 isList
          rcases Element.entry_front 0 isEntry with isElement | ⟨text, rfl⟩
          · have under : list.Under (path ++ [1]) (path ++ [1] ++ [1]) target :=
              Element.under_child isElement
            rw [List.append_assoc] at under
            rw [aims_cons]
            refine ⟨⟨target, List.any_eq_true.mpr ⟨grammar.test, isTarget, hasKind⟩, under⟩, aims_nil⟩
          · simp at hasKind
        next => cases followed
      next => cases followed
    next =>
      split
      · exact aims_fail _
      · exact aims_fail _

theorem expressionStatement_aims (isTarget : grammar.test ∈ grammar.targets) :
    Aims grammar path node marks (expressionStatement grammar path node) := by
  unfold expressionStatement
  split
  · exact aims_nil
  · rw [aims_cons]
    refine ⟨trivial, aims_branch (fun _ => augmentedTarget_aims isTarget)
      (aims_branch (fun _ => ?_) aims_nil)⟩
    split
    next => exact aims_fail _
    next first found =>
      rw [aims_append]
      constructor
      · exact Aims.through_entry 0 found (targetList_aims _ first)
      · apply targetChain_aims
        intro entry member
        exact (List.dropLast_prefix _).subset member

theorem bareTarget_aims (isTarget : grammar.test ∈ grammar.targets) :
    Aims grammar path node Construct.power.marks (bareTarget grammar path node) := by
  refine aims_branch (fun _ => markAt_forward List.mem_cons_self (by simp))
    (aims_branch (fun _ => ?_) aims_nil)
  split
  next => exact aims_fail _
  next members followed =>
    simp only [Element.follow] at followed
    split at followed
    next atom isAtom =>
      split at followed
      next found isEntry =>
        cases followed
        apply Aims.through_entry 0 isAtom
        apply Aims.through_entry 1 isEntry
        rw [List.append_assoc]
        apply awaitMembers_aims _ _ fun _ => id
        intro kind member
        rw [List.mem_singleton.mp member]
        exact isTarget
      next => cases followed
    next => cases followed

theorem target_aims (isTarget : grammar.test ∈ grammar.targets) :
    Aims grammar path node Construct.power.marks (target grammar path node) := by
  refine aims_branch (fun _ => bareTarget_aims isTarget)
    (aims_branch (fun _ => markAt_forward List.mem_cons_self (by simp))
      (aims_branch (fun holds => ?_) (aims_branch (fun holds => ?_) aims_nil)))
  · have long : 3 ≤ node.elements.length := by simpa using Verdict.all_eq_true.mp holds _ List.mem_cons_self
    exact markAt_backward List.mem_cons_self (by decide) (by omega) (by simp)
  · have long : 4 ≤ node.elements.length := by simpa using Verdict.all_eq_true.mp holds _ List.mem_cons_self
    exact markAt_backward List.mem_cons_self (by decide) (by omega) (by simp)

theorem calls_aims :
    Aims grammar path node Construct.power.marks (calls grammar path node) := by
  have allowed : Mark.call ∈ Construct.power.marks := by decide
  simp only [calls, aims_append]
  constructor
  · exact aims_branch (fun _ => markAt_forward allowed (by simp)) aims_nil
  · apply aims_flatMap
    intro position member
    have positive : 1 ≤ position := (List.mem_range'_1.mp member).1
    refine aims_branch (fun _ => markAt_forward allowed ?_) aims_nil
    intro later isLater
    simp only [List.mem_cons, List.not_mem_nil, or_false] at isLater
    omega

theorem construct_eq {kind : Element} (hasKind : node.kind = .ok kind) (state : State) :
    construct grammar state path node =
      ofConstruct grammar state path node (node.constructIn grammar) := by
  rw [Element.constructIn_eq hasKind]
  simp [construct, hasKind]

/-- Every construct looks ahead to places below it, and notes only marks of its own sort. -/
theorem ofConstruct_aims (isTarget : grammar.test ∈ grammar.targets) (state : State)
    (construct : Construct) :
    Aims grammar path node construct.marks (ofConstruct grammar state path node construct) := by
  cases construct with
  | globalStatement => exact globalStatement_aims
  | functionDefinition =>
      simp only [ofConstruct]
      split
      · exact functionDefinition_aims
      · exact aims_nil
  | decorated => exact decorated_aims
  | importFrom => exact moduleName_aims _ _ fun _ => id
  | importName => simp [ofConstruct, Step.Aims]
  | importedNames =>
      simp only [ofConstruct, importedNames]
      split <;> simp [Step.Aims]
  | dottedName => exact dottedName_aims state
  | expressionStatement => exact expressionStatement_aims isTarget
  | expression =>
      simp only [ofConstruct, expression]
      split <;> simp [Step.Aims]
  | classDefinition => exact classDefinition_aims
  | power =>
      simp only [ofConstruct, aims_append]
      refine ⟨?_, calls_aims⟩
      split
      · rw [aims_cons]
        exact ⟨trivial, target_aims isTarget⟩
      · exact aims_nil
  | other => exact aims_nil

end Plan

namespace State

variable {grammar : Grammar} {path : Path} {node : Element} {marks : List Mark}

/-- One state leads to another by notes for places below a node, and enters a function only if
definitions are among the marks that may be noted. -/
structure Foresees (grammar : Grammar) (path : Path) (node : Element) (marks : List Mark)
    (before after : State) : Prop where
  marked : ∀ entry ∈ after.marks, entry ∈ before.marks ∨
    (∃ mark ∈ marks, entry.2 = .known mark) ∧
      ∃ terminal, terminal.isOfKindIn grammar.markable = true ∧ node.Under path entry.1 terminal
  awaited : ∀ place ∈ after.awaited, place ∈ before.awaited ∨
    ∃ target, target.isOfKindIn grammar.targets = true ∧ node.Under path place target
  functionLevel : Mark.definition ∉ marks → after.functionLevel = before.functionLevel

theorem Foresees.refl (state : State) : Foresees grammar path node marks state state :=
  ⟨fun _ => Or.inl, fun _ => Or.inl, fun _ => rfl⟩

theorem Foresees.trans {first second third : State}
    (early : Foresees grammar path node marks first second)
    (late : Foresees grammar path node marks second third) :
    Foresees grammar path node marks first third := by
  refine ⟨?_, ?_, fun noDefinition =>
    (late.functionLevel noDefinition).trans (early.functionLevel noDefinition)⟩
  · intro entry member
    exact (late.marked entry member).elim (early.marked entry) Or.inr
  · intro place member
    exact (late.awaited place member).elim (early.awaited place) Or.inr

theorem take_foresees {step : Step} (prepares : step.Prepares)
    (aims : step.Aims grammar path node marks) (state : State) :
    Foresees grammar path node marks state (state.take grammar step).state := by
  have same : Foresees grammar path node marks state state := Foresees.refl state
  cases step with
  | fail | settle | beginImport | countImports | finishImport =>
      exact ⟨fun _ => Or.inl, fun _ => Or.inl, fun _ => rfl⟩
  | openFunction =>
      exact ⟨fun _ => Or.inl, fun _ => Or.inl, fun noDefinition => absurd aims noDefinition⟩
  | demand verdict =>
      rcases verdict with fault | _ | _ <;> exact same
  | mark place terminal noted =>
      simp only [take, setMark]
      split
      next => exact same
      next =>
        split
        next => exact same
        next kind hasKind =>
          split
          next canHold =>
            refine ⟨?_, fun _ => Or.inl, fun _ => rfl⟩
            intro entry member
            rcases List.mem_append.mp member with old | new
            · exact Or.inl old
            · rw [List.mem_singleton.mp new]
              rcases List.any_eq_true.mp canHold with ⟨number, inMarkable, isNumber⟩
              have isKind := (Element.isOfKind_eq hasKind number).trans isNumber
              exact Or.inr ⟨⟨noted, aims.1, rfl⟩, terminal,
                List.any_eq_true.mpr ⟨number, inMarkable, isKind⟩, aims.2 number isKind⟩
          next => exact same
  | await place =>
      simp only [take, State.await]
      split
      next => exact same
      next =>
        refine ⟨fun _ => Or.inl, ?_, fun _ => rfl⟩
        intro other member
        rcases List.mem_append.mp member with old | new
        · exact Or.inl old
        · rw [List.mem_singleton.mp new]
          exact Or.inr aims
  | arrive place =>
      have fewer : ∀ other ∈ state.awaited.filter (· ≠ place), other ∈ state.awaited :=
        fun other member => (List.mem_filter.mp member).1
      simp only [take, arrive]
      split <;> exact ⟨fun _ => Or.inl, fun other member => Or.inl (fewer other member), fun _ => rfl⟩
  | unmark | indent | dedent | turn | add | finish => exact absurd prepares (by simp)

/-- A construct makes notes for places below it, of the marks of its own sort. -/
theorem visitConstruct_foresees {settings : Settings}
    (isTarget : settings.grammar.test ∈ settings.grammar.targets) (state : State) (path : Path)
    (node : Element) :
    Foresees settings.grammar path node (node.constructIn settings.grammar).marks state
      (state.visitConstruct settings path node).state := by
  apply takeAll_preserves (motive := Foresees _ path node _ state) _ (Foresees.refl state)
  intro step member middle foresees
  apply foresees.trans (take_foresees _ _ middle)
  · exact Plan.construct_prepares settings.grammar state path node step member
  · cases hasKind : node.kind with
    | error fault =>
        simp only [Plan.construct, hasKind] at member
        exact Plan.aims_fail fault step member
    | ok kind =>
        rw [Plan.construct_eq hasKind] at member
        exact Plan.ofConstruct_aims isTarget state _ step member

end State

end CrossRef
