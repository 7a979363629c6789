import CrossRef.Walk.Preorder

/-!
# What constructs do

A construct writes nothing.  The steps of its plan look at the tree, note marks and awaited
expressions for nodes still to come, and keep the few facts about functions and imports; the lines,
finished or being written, and the indentation are left to the terminals.  No construct notes the
end of a function, so every label that a walk finds is one of the other marks.  Three constructs take
part in assignments; all others only declare, mark calls or count imports.
-/

namespace CrossRef

/-- The kinds that stand for a construct that a walk looks at. -/
def Construct.kinds (grammar : Grammar) : Construct → List Nat
  | .globalStatement => [grammar.globalStatement]
  | .functionDefinition => [grammar.functionDefinition]
  | .decorated => [grammar.decorated]
  | .importFrom => [grammar.importFrom]
  | .importName => [grammar.importName]
  | .importedNames => [grammar.importedNames]
  | .dottedName => [grammar.dottedName]
  | .expressionStatement => [grammar.expressionStatement]
  | .expression => grammar.targets
  | .classDefinition => [grammar.classDefinition]
  | .power => [grammar.power]
  | .other => []

@[simp]
theorem Element.isNumberIn_singleton (element : Element) (number : Nat) :
    element.isNumberIn [number] = element.isNumber number := by
  simp [isNumberIn]

namespace Grammar

/-- What stands for a construct is of one of its kinds. -/
theorem isNumberIn_of_constructOf {grammar : Grammar} {kind : Element} {construct : Construct}
    (isConstruct : grammar.constructOf kind = construct) (notOther : construct ≠ .other) :
    kind.isNumberIn (construct.kinds grammar) = true := by
  subst isConstruct
  revert notOther
  fun_cases constructOf grammar kind with
  | case9 =>
      -- Expressions alone come in several kinds.
      intro _
      assumption
  | case12 => exact absurd rfl
  | _ =>
      intro _
      rwa [Construct.kinds, Element.isNumberIn_singleton]

theorem mem_kinds_of_constructOf {grammar : Grammar} {kind : Nat} {construct : Construct}
    (isConstruct : grammar.constructOf (.int kind) = construct) (notOther : construct ≠ .other) :
    kind ∈ construct.kinds grammar := by
  rcases List.any_eq_true.mp (isNumberIn_of_constructOf isConstruct notOther) with
    ⟨number, member, isNumber⟩
  have same : (kind : Int) = number := of_decide_eq_true isNumber
  rwa [Int.ofNat_inj.mp same]

theorem eq_of_constructOf {grammar : Grammar} {kind number : Nat} {construct : Construct}
    (isConstruct : grammar.constructOf (.int kind) = construct)
    (single : construct.kinds grammar = [number]) : kind = number := by
  have notOther : construct ≠ .other := by
    rintro rfl
    cases single
  have member := mem_kinds_of_constructOf isConstruct notOther
  rwa [single, List.mem_singleton] at member

end Grammar

namespace Step

/-- The steps that a construct may take. -/
@[simp]
def Prepares : Step → Prop
  | .mark _ _ noted => noted ≠ .functionEnd
  | .unmark _ | .indent | .dedent | .turn _ | .add _ | .finish => False
  | _ => True

/-- The steps that a construct may take if it has no part in an assignment. -/
@[simp]
def Declares : Step → Prop
  | .mark _ _ noted => noted ≠ .functionEnd ∧ noted ≠ .assignment
  | .fail _ | .demand _ | .openFunction | .beginImport | .countImports _ | .finishImport => True
  | _ => False

theorem Declares.prepares {step : Step} (declares : step.Declares) : step.Prepares := by
  cases step with
  | mark path terminal noted => exact declares.1
  | fail | demand | openFunction | beginImport | countImports | finishImport => trivial
  | unmark | await | arrive | settle | indent | dedent | turn | add | finish => cases declares

/-- The steps of a construct that declares or calls something by its name. -/
@[simp]
def Designates : Step → Prop
  | .mark _ _ noted => noted ≠ .functionEnd ∧ noted ≠ .assignment
  | .fail _ | .demand _ | .openFunction => True
  | _ => False

/-- The steps of a construct that looks for what is assigned to. -/
@[simp]
def Seeks : Step → Prop
  | .mark _ _ noted => noted = .assignment
  | .fail _ | .demand _ | .await _ | .arrive _ | .settle => True
  | _ => False

/-- The steps that leave the count of imported modules alone. -/
@[simp]
def KeepsImports : Step → Prop
  | .beginImport | .countImports _ | .finishImport => False
  | _ => True

theorem Designates.declares {step : Step} (designates : step.Designates) : step.Declares := by
  cases step with
  | mark path terminal noted => exact designates
  | fail | demand | openFunction => trivial
  | _ => cases designates

theorem Designates.keepsImports {step : Step} (designates : step.Designates) : step.KeepsImports := by
  cases step with
  | beginImport | countImports | finishImport => cases designates
  | _ => trivial

theorem Seeks.prepares {step : Step} (seeks : step.Seeks) : step.Prepares := by
  cases step with
  | mark path terminal noted =>
      cases seeks
      exact Mark.noConfusion
  | fail | demand | await | arrive | settle => trivial
  | _ => cases seeks

theorem Seeks.keepsImports {step : Step} (seeks : step.Seeks) : step.KeepsImports := by
  cases step with
  | beginImport | countImports | finishImport => cases seeks
  | _ => trivial

end Step

namespace Plan

/-- A plan whose steps are all of one sort. -/
def Consists (sort : Step → Prop) (plan : Plan) : Prop :=
  ∀ step ∈ plan, sort step

section

variable {sort : Step → Prop}

@[simp]
theorem consists_nil : Consists sort [] := by
  simp [Consists]

@[simp]
theorem consists_cons (step : Step) (rest : Plan) :
    Consists sort (step :: rest) ↔ sort step ∧ Consists sort rest := by
  simp [Consists]

@[simp]
theorem consists_append (first second : Plan) :
    Consists sort (first ++ second) ↔ Consists sort first ∧ Consists sort second := by
  simp [Consists, or_imp, forall_and]

theorem Consists.imp {other : Step → Prop} {plan : Plan} (consists : Consists sort plan)
    (implies : ∀ step, sort step → other step) : Consists other plan :=
  fun step member => implies step (consists step member)

theorem consists_flatMap {Entry : Type} {entries : List Entry} {plan : Entry → Plan}
    (each : ∀ entry ∈ entries, Consists sort (plan entry)) :
    Consists sort (entries.flatMap plan) := by
  intro step member
  rcases List.mem_flatMap.mp member with ⟨entry, isEntry, inPlan⟩
  exact each entry isEntry step inPlan

theorem consists_fail (fails : ∀ fault, sort (.fail fault)) (fault : Fault) :
    Consists sort [.fail fault] := by
  rw [consists_cons]
  exact ⟨fails fault, consists_nil⟩

theorem consists_branch (fails : ∀ fault, sort (.fail fault)) {verdict : Verdict} {yes no : Plan}
    (ifYes : verdict = .ok true → Consists sort yes) (ifNo : Consists sort no) :
    Consists sort (branch verdict yes no) := by
  unfold branch
  split
  · exact ifYes rfl
  · exact ifNo
  · exact consists_fail fails _

theorem consists_markAt (fails : ∀ fault, sort (.fail fault)) {mark : Mark}
    (notes : ∀ place terminal, sort (.mark place terminal mark)) (path : Path) (node : Element)
    (route : List Int) : Consists sort (markAt path node route mark) := by
  unfold markAt
  split
  · rw [consists_cons]
    exact ⟨notes _ _, consists_nil⟩
  · exact consists_fail fails _

end

/-! ## Constructs that have no part in an assignment -/

theorem designates_fail (fault : Fault) : Consists Step.Designates [.fail fault] :=
  consists_fail (fun _ => trivial) fault

theorem designates_branch {verdict : Verdict} {yes no : Plan} (ifYes : Consists Step.Designates yes)
    (ifNo : Consists Step.Designates no) : Consists Step.Designates (branch verdict yes no) :=
  consists_branch (fun _ => trivial) (fun _ => ifYes) ifNo

theorem markAt_designates {mark : Mark} (sort : mark ≠ .functionEnd ∧ mark ≠ .assignment) (path : Path)
    (node : Element) (route : List Int) : Consists Step.Designates (markAt path node route mark) :=
  consists_markAt (fun _ => trivial) (fun _ _ => sort) path node route

theorem markAll_designates {mark : Mark} (sort : mark ≠ .functionEnd ∧ mark ≠ .assignment) (path : Path)
    (node : Element) : Consists Step.Designates (markAll path node mark) := by
  intro step member
  rcases List.mem_map.mp member with ⟨⟨position, terminal⟩, _, rfl⟩
  exact sort

theorem globalStatement_designates (path : Path) (node : Element) :
    Consists Step.Designates (globalStatement path node) := by
  apply consists_flatMap
  rintro ⟨position, child⟩ _
  have sort : Mark.globalName ≠ .functionEnd ∧ Mark.globalName ≠ .assignment := by decide
  simp only [consists_cons]
  exact ⟨trivial, sort, consists_nil⟩

theorem functionName_designates (path : Path) (node : Element) (position : Int) :
    Consists Step.Designates (functionName path node position) := by
  simp only [functionName, consists_cons]
  exact ⟨trivial, markAt_designates (by decide) _ _ _⟩

theorem functionDefinition_designates (grammar : Grammar) (path : Path) (node : Element) :
    Consists Step.Designates (functionDefinition grammar path node) := by
  simp only [functionDefinition, consists_cons]
  refine ⟨trivial, designates_branch ?_ ?_⟩
  · exact functionName_designates path node 2
  · exact functionName_designates path node 1

theorem classDefinition_designates (path : Path) (node : Element) :
    Consists Step.Designates (classDefinition path node) := by
  simp only [classDefinition, consists_cons]
  exact ⟨trivial, markAt_designates (by decide) _ _ _⟩

theorem decoratorName_designates (path : Path) (dotted : Element) :
    Consists Step.Designates (decoratorName path dotted) := by
  have call : Consists Step.Designates (markAt path dotted [-1] .call) :=
    markAt_designates (by decide) _ _ _
  unfold decoratorName
  split
  · exact designates_fail _
  · split
    · exact designates_fail _
    · split
      · exact call
      · rw [consists_cons]
        exact ⟨trivial, designates_branch consists_nil call⟩

theorem decorator_designates (grammar : Grammar) (path : Path) (node : Element) :
    Consists Step.Designates (decorator grammar path node) := by
  simp only [decorator, consists_append, consists_cons]
  refine ⟨⟨trivial, trivial, trivial, consists_nil⟩, ?_⟩
  split
  · exact designates_fail _
  · exact decoratorName_designates _ _

theorem decorated_designates (grammar : Grammar) (path : Path) (node : Element) :
    Consists Step.Designates (decorated grammar path node) := by
  apply designates_branch _ consists_nil
  split
  · exact designates_fail _
  · apply consists_flatMap
    rintro ⟨position, child⟩ _
    exact decorator_designates _ _ _

theorem moduleName_designates (grammar : Grammar) (path : Path) (sort : String)
    (entries : List (Nat × Element)) :
    Consists Step.Designates (moduleName grammar path sort entries) := by
  fun_induction moduleName grammar path sort entries with
  | case1 => exact designates_fail _
  | case2 => exact designates_fail _
  | case3 _ _ _ _ _ _ ih => exact ih
  | case4 => exact markAll_designates (by decide) _ _
  | case5 => exact consists_nil

theorem calls_designates (grammar : Grammar) (path : Path) (node : Element) :
    Consists Step.Designates (calls grammar path node) := by
  simp only [calls, consists_append]
  constructor
  · exact designates_branch (markAt_designates (by decide) _ _ _) consists_nil
  · apply consists_flatMap
    intro position _
    exact designates_branch (markAt_designates (by decide) _ _ _) consists_nil

theorem dottedName_declares (state : State) (path : Path) (node : Element) :
    Consists Step.Declares (dottedName state path node) := by
  unfold dottedName
  split
  · split
    · rw [consists_append]
      refine ⟨(markAll_designates (by decide) _ _).imp fun _ => Step.Designates.declares, ?_⟩
      rw [consists_cons]
      exact ⟨trivial, consists_nil⟩
    · exact consists_fail (fun _ => trivial) _
  · exact consists_nil

/-- A construct that neither takes part in an assignment nor counts modules only notes marks. -/
theorem ofConstruct_designates (grammar : Grammar) (state : State) (path : Path) (node : Element)
    {sort : Construct} (apart : sort ∉ [.expressionStatement, .expression, .power])
    (uncounted : sort ∉ [.importName, .importedNames, .dottedName]) :
    Consists Step.Designates (ofConstruct grammar state path node sort) := by
  cases sort with
  | globalStatement => exact globalStatement_designates _ _
  | functionDefinition =>
      simp only [ofConstruct]
      split
      · exact functionDefinition_designates _ _ _
      · exact consists_nil
  | decorated => exact decorated_designates _ _ _
  | importFrom => exact moduleName_designates _ _ _ _
  | classDefinition => exact classDefinition_designates _ _
  | other => exact consists_nil
  | expressionStatement | expression | power => simp at apart
  | importName | importedNames | dottedName => simp at uncounted

theorem ofConstruct_declares (grammar : Grammar) (state : State) (path : Path) (node : Element)
    {sort : Construct} (apart : sort ∉ [.expressionStatement, .expression, .power]) :
    Consists Step.Declares (ofConstruct grammar state path node sort) := by
  by_cases counts : sort ∈ [.importName, .importedNames, .dottedName]
  · simp only [List.mem_cons, List.not_mem_nil, or_false] at counts
    rcases counts with rfl | rfl | rfl
    · simp [ofConstruct]
    · simp only [ofConstruct, importedNames]
      split <;> simp
    · exact dottedName_declares _ _ _
  · exact (ofConstruct_designates _ _ _ _ apart counts).imp fun _ => Step.Designates.declares

/-- Only an assignment statement, an awaited expression and the primary that it leads to have a part
in an assignment. -/
theorem construct_declares {grammar : Grammar} {state : State} {path : Path} {node : Element}
    (noStatement : ∀ kind, node.kind = .ok kind → kind.isNumber grammar.expressionStatement = false)
    (settled : state.assigning = false) (unawaited : path ∉ state.awaited) :
    Consists Step.Declares (construct grammar state path node) := by
  unfold construct
  split
  · exact consists_fail (fun _ => trivial) _
  next kind hasKind =>
    have notStatement : grammar.constructOf kind ≠ .expressionStatement := by
      intro isStatement
      have isNumber := Grammar.isNumberIn_of_constructOf isStatement (by decide)
      simp [Construct.kinds, noStatement kind hasKind] at isNumber
    generalize grammar.constructOf kind = sort at notStatement
    by_cases isExpression : sort = .expression
    · simp [isExpression, ofConstruct, expression, unawaited]
    · by_cases isPower : sort = .power
      · have calls := (calls_designates grammar path node).imp fun _ => Step.Designates.declares
        simpa [isPower, ofConstruct, settled] using calls
      · exact ofConstruct_declares _ _ _ _ (by simp [notStatement, isExpression, isPower])

/-! ## Constructs that take part in an assignment -/

theorem seeks_fail (fault : Fault) : Consists Step.Seeks [.fail fault] :=
  consists_fail (fun _ => trivial) fault

theorem seeks_branch {verdict : Verdict} {yes no : Plan} (ifYes : Consists Step.Seeks yes)
    (ifNo : Consists Step.Seeks no) : Consists Step.Seeks (branch verdict yes no) :=
  consists_branch (fun _ => trivial) (fun _ => ifYes) ifNo

theorem markTarget_seeks (path : Path) (node : Element) (route : List Int) :
    Consists Step.Seeks (markAt path node route .assignment) :=
  consists_markAt (fun _ => trivial) (fun _ _ => rfl) path node route

theorem awaitMembers_seeks (kinds : List Nat) (path : Path) (entries : List (Nat × Element)) :
    Consists Step.Seeks (awaitMembers kinds path entries) := by
  fun_induction awaitMembers kinds path entries with
  | case1 => exact consists_nil
  | case2 => exact seeks_fail _
  | case3 _ _ _ _ _ _ ih => exact ih
  | case4 _ _ _ _ _ _ _ ih =>
      rw [consists_cons]
      exact ⟨trivial, ih⟩
  | case5 => exact consists_nil

theorem targetList_seeks (grammar : Grammar) (path : Path) (node : Element) :
    Consists Step.Seeks (targetList grammar path node) := by
  simp only [targetList, consists_cons]
  exact ⟨trivial, awaitMembers_seeks _ _ _⟩

theorem targetChain_seeks (grammar : Grammar) (path : Path) (entries : List (Nat × Element)) :
    Consists Step.Seeks (targetChain grammar path entries) := by
  fun_induction targetChain grammar path entries with
  | case1 => exact consists_nil
  | case2 => exact seeks_fail _
  | case3 _ _ _ _ _ _ ih => exact ih
  | case4 _ _ _ _ _ _ _ ih =>
      rw [consists_append]
      exact ⟨targetList_seeks _ _ _, ih⟩
  | case5 => exact consists_nil

theorem augmentedTarget_seeks (grammar : Grammar) (path : Path) (node : Element) :
    Consists Step.Seeks (augmentedTarget grammar path node) := by
  unfold augmentedTarget
  split
  · exact seeks_fail _
  · split
    · rw [consists_cons]
      exact ⟨trivial, consists_nil⟩
    · split
      · exact seeks_fail _
      · exact seeks_fail _

theorem expressionStatement_seeks (grammar : Grammar) (path : Path) (node : Element) :
    Consists Step.Seeks (expressionStatement grammar path node) := by
  unfold expressionStatement
  split
  · exact consists_nil
  · rw [consists_cons]
    refine ⟨trivial, seeks_branch (augmentedTarget_seeks _ _ _) (seeks_branch ?_ consists_nil)⟩
    split
    · exact seeks_fail _
    · rw [consists_append]
      exact ⟨targetList_seeks _ _ _, targetChain_seeks _ _ _⟩

theorem bareTarget_seeks (grammar : Grammar) (path : Path) (node : Element) :
    Consists Step.Seeks (bareTarget grammar path node) := by
  apply seeks_branch (markTarget_seeks _ _ _)
  apply seeks_branch _ consists_nil
  split
  · exact seeks_fail _
  · exact awaitMembers_seeks _ _ _

theorem target_seeks (grammar : Grammar) (path : Path) (node : Element) :
    Consists Step.Seeks (target grammar path node) := by
  apply seeks_branch (bareTarget_seeks _ _ _)
  apply seeks_branch (markTarget_seeks _ _ _)
  apply seeks_branch (markTarget_seeks _ _ _)
  exact seeks_branch (markTarget_seeks _ _ _) consists_nil

theorem expression_seeks (state : State) (path : Path) :
    Consists Step.Seeks (expression state path) := by
  unfold expression
  split <;> simp

/-- The steps of a primary, whether it is assigned to or not. -/
theorem consists_power {sort : Step → Prop} (designates : ∀ step : Step, step.Designates → sort step)
    (seeks : ∀ step : Step, step.Seeks → sort step) (grammar : Grammar) (state : State) (path : Path)
    (node : Element) : Consists sort (ofConstruct grammar state path node .power) := by
  simp only [ofConstruct, consists_append]
  refine ⟨?_, (calls_designates _ _ _).imp designates⟩
  split
  · rw [consists_cons]
    exact ⟨seeks _ trivial, (target_seeks _ _ _).imp seeks⟩
  · exact consists_nil

/-- A construct takes only steps of preparation, whatever the tree looks like. -/
theorem construct_prepares (grammar : Grammar) (state : State) (path : Path) (node : Element) :
    Consists Step.Prepares (construct grammar state path node) := by
  unfold construct
  split
  · exact consists_fail (fun _ => trivial) _
  next kind _ =>
    generalize grammar.constructOf kind = sort
    by_cases apart : sort ∈ [Construct.expressionStatement, .expression, .power]
    · simp only [List.mem_cons, List.not_mem_nil, or_false] at apart
      rcases apart with rfl | rfl | rfl
      · exact (expressionStatement_seeks _ _ _).imp fun _ => Step.Seeks.prepares
      · exact (expression_seeks _ _).imp fun _ => Step.Seeks.prepares
      · exact consists_power (fun _ designates => designates.declares.prepares)
          (fun _ => Step.Seeks.prepares) _ _ _ _
    · exact (ofConstruct_declares _ _ _ _ apart).imp fun _ => Step.Declares.prepares

/-- Only the constructs of imports count modules. -/
theorem ofConstruct_keepsImports (grammar : Grammar) (state : State) (path : Path) (node : Element)
    {sort : Construct} (apart : sort ∉ [.importName, .importedNames, .dottedName]) :
    Consists Step.KeepsImports (ofConstruct grammar state path node sort) := by
  by_cases assigns : sort ∈ [.expressionStatement, .expression, .power]
  · simp only [List.mem_cons, List.not_mem_nil, or_false] at assigns
    rcases assigns with rfl | rfl | rfl
    · exact (expressionStatement_seeks _ _ _).imp fun _ => Step.Seeks.keepsImports
    · exact (expression_seeks _ _).imp fun _ => Step.Seeks.keepsImports
    · exact consists_power (fun _ => Step.Designates.keepsImports) (fun _ => Step.Seeks.keepsImports)
        _ _ _ _
  · exact (ofConstruct_designates _ _ _ _ assigns apart).imp fun _ => Step.Designates.keepsImports

end Plan

namespace State

/-- Two states that agree on the lines and on the indentation. -/
structure SamePage (before after : State) : Prop where
  blocks : after.blocks = before.blocks
  line : after.line = before.line
  indentation : after.indentation = before.indentation

theorem SamePage.refl (state : State) : SamePage state state :=
  ⟨rfl, rfl, rfl⟩

theorem SamePage.trans {first second third : State} (early : SamePage first second)
    (late : SamePage second third) : SamePage first third :=
  ⟨late.blocks.trans early.blocks, late.line.trans early.line,
    late.indentation.trans early.indentation⟩

/-- Every label of a state is a mark other than the end of a function. -/
def OnlyNotes (state : State) : Prop :=
  ∀ entry ∈ state.marks, ∃ mark, mark ≠ .functionEnd ∧ entry.2 = .known mark

theorem OnlyNotes.labelAt {state : State} {path : Path} {label : Label} (notes : state.OnlyNotes)
    (found : state.labelAt? path = some label) :
    ∃ mark, mark ≠ .functionEnd ∧ label = .known mark := by
  unfold labelAt? at found
  rcases List.lookup_eq_some_iff.mp found with ⟨before, after, split, _⟩
  exact notes (path, label) (by simp [split])

theorem OnlyNotes.dropMark {state : State} (notes : state.OnlyNotes) (path : Path) :
    (state.dropMark path).OnlyNotes := by
  intro entry member
  exact notes entry (List.mem_filter.mp member).1

/-- What every step of a plan preserves, the plan preserves, also if it is cut short. -/
theorem takeAll_preserves {grammar : Grammar} {motive : State → Prop} {plan : Plan}
    (each : ∀ step ∈ plan, ∀ state, motive state → motive (state.take grammar step).state)
    {state : State} (holds : motive state) : motive (state.takeAll grammar plan).state := by
  induction plan generalizing state with
  | nil => exact holds
  | cons step rest ih =>
      have afterStep := each step (by simp) state holds
      rw [takeAll]
      split
      next next taken =>
        rw [taken] at afterStep
        exact ih (fun later member => each later (by simp [member])) afterStep
      next next fault taken =>
        rw [taken] at afterStep
        exact afterStep

theorem take_samePage {grammar : Grammar} {step : Step} (prepares : step.Prepares) (state : State) :
    SamePage state (state.take grammar step).state := by
  cases step with
  | fail | settle | openFunction | beginImport | countImports | finishImport =>
      exact ⟨rfl, rfl, rfl⟩
  | demand verdict =>
      rcases verdict with fault | _ | _ <;> exact SamePage.refl state
  | mark path terminal noted =>
      simp only [take, setMark]
      split
      · exact SamePage.refl state
      · split
        · exact SamePage.refl state
        · split <;> exact ⟨rfl, rfl, rfl⟩
  | await path =>
      simp only [take, State.await]
      split <;> exact ⟨rfl, rfl, rfl⟩
  | arrive path =>
      simp only [take, arrive]
      split <;> exact ⟨rfl, rfl, rfl⟩
  | unmark | indent | dedent | turn | add | finish => exact absurd prepares (by simp)

theorem take_onlyNotes {grammar : Grammar} {step : Step} (prepares : step.Prepares) {state : State}
    (notes : state.OnlyNotes) : (state.take grammar step).state.OnlyNotes := by
  cases step with
  | fail | settle | openFunction | beginImport | countImports | finishImport => exact notes
  | demand verdict =>
      rcases verdict with fault | _ | _ <;> exact notes
  | mark path terminal noted =>
      simp only [take, setMark]
      split
      · exact notes
      · split
        · exact notes
        · split
          · intro entry member
            rcases List.mem_append.mp member with old | new
            · exact notes entry old
            · rw [List.mem_singleton.mp new]
              exact ⟨noted, prepares, rfl⟩
          · exact notes
  | await path =>
      simp only [take, State.await]
      split <;> exact notes
  | arrive path =>
      simp only [take, arrive]
      split <;> exact notes
  | unmark | indent | dedent | turn | add | finish => exact absurd prepares (by simp)

/-- A construct leaves the lines and the indentation as they are. -/
theorem visitConstruct_samePage (settings : Settings) (state : State) (path : Path) (node : Element) :
    SamePage state (state.visitConstruct settings path node).state := by
  apply takeAll_preserves (motive := SamePage state) _ (SamePage.refl state)
  intro step member middle same
  have prepares := Plan.construct_prepares settings.grammar state path node step member
  exact same.trans (take_samePage prepares middle)

/-- A construct notes no end of a function. -/
theorem visitConstruct_onlyNotes (settings : Settings) {state : State} (path : Path) (node : Element)
    (notes : state.OnlyNotes) : (state.visitConstruct settings path node).state.OnlyNotes := by
  apply takeAll_preserves (motive := OnlyNotes) _ notes
  intro step member middle holds
  exact take_onlyNotes (Plan.construct_prepares settings.grammar state path node step member) holds

end State

end CrossRef
