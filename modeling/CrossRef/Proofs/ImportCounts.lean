import CrossRef.Proofs.PendingNotes

/-!
# Counting the modules of an import statement

An import statement switches a flag on.  The list of its modules says how many there are, and every
dotted name takes one off; the last one switches the flag off again.  No other node touches the flag or
the count, so that what becomes of them along a walk can be told from the nodes alone.
-/

namespace CrossRef

/-- How far the modules of an import statement have been read: whether there are any to come, and twice
their number. -/
structure ImportCount where
  importing : Bool
  halves : Option Nat
  deriving DecidableEq, Repr

namespace ImportCount

/-- What becomes of the count when a walk passes a node. -/
def pass (grammar : Grammar) (count : ImportCount) (node : Element) : ImportCount :=
  match node.constructIn grammar with
  | .importName => { count with importing := true }
  | .importedNames =>
    if count.importing then { count with halves := some (grammar.importHalves node.elements.length) }
    else count
  | .dottedName =>
    if count.importing then
      ⟨count.halves.getD 0 - 2 ≠ 0, some (count.halves.getD 0 - 2)⟩
    else count
  | _ => count

/-- What becomes of the count along a run of nodes. -/
def passAll (grammar : Grammar) (count : ImportCount) (nodes : List (Path × Element)) : ImportCount :=
  nodes.foldl (fun count entry => count.pass grammar entry.2) count

variable {grammar : Grammar} {count : ImportCount} {node : Element}

theorem passAll_cons (path : Path) (rest : List (Path × Element)) :
    count.passAll grammar ((path, node) :: rest) = (count.pass grammar node).passAll grammar rest :=
  rfl

theorem passAll_append (first second : List (Path × Element)) :
    count.passAll grammar (first ++ second) =
      (count.passAll grammar first).passAll grammar second :=
  List.foldl_append

/-- Only an import statement begins to count. -/
theorem importing_pass (settled : count.importing = false)
    (noImport : node.constructIn grammar ≠ .importName) :
    (count.pass grammar node).importing = false := by
  unfold pass
  split
  next isImport => exact absurd isImport noImport
  all_goals simp [settled]

end ImportCount

namespace Grammar

variable {grammar : Grammar}

/-- What has no number of a construct is nothing that a walk looks at. -/
theorem constructOf_eq_other (version : grammar ∈ versions) {kind : Element}
    (low : ∀ number, Kind.firstConstruct ≤ number → kind.isNumber number = false) :
    grammar.constructOf kind = .other := by
  rcases mem_versions.mp version with rfl | rfl | rfl <;>
    simp (disch := decide) [constructOf, Element.isNumberIn, version3, version27, version26, low]

end Grammar

theorem Element.constructIn_terminal {grammar : Grammar} (version : grammar ∈ Grammar.versions)
    {node : Element} (isTerminal : node.isConstruct = .ok false) :
    node.constructIn grammar = .other := by
  cases hasKind : node.kind with
  | error fault => simp [constructIn, hasKind]
  | ok kind =>
      rw [constructIn_eq hasKind]
      apply Grammar.constructOf_eq_other version
      intro number isHigh
      simp only [isConstruct, hasKind] at isTerminal
      cases isNumber : kind.isNumber number with
      | false => rfl
      | true =>
          simp [atLeast_of_isNumber isNumber, isHigh] at isTerminal

namespace State

variable {settings : Settings} {grammar : Grammar} {before after start finish : State} {path : Path}
  {node : Element}

def importCount (state : State) : ImportCount :=
  ⟨state.importing, state.importHalves⟩

theorem SameNotes.importCount (same : SameNotes before after) :
    after.importCount = before.importCount := by
  simp [State.importCount, same.importing, same.importHalves]

theorem take_importCount {step : Step} (keeps : step.KeepsImports) (state : State) :
    (state.take grammar step).state.importCount = state.importCount := by
  cases step with
  | mark place terminal noted =>
      simp only [take, setMark]
      split
      · rfl
      · split
        · rfl
        · split <;> rfl
  | demand verdict => rcases verdict with fault | _ | _ <;> rfl
  | await place =>
      simp only [take, await]
      split <;> rfl
  | arrive place =>
      simp only [take, arrive]
      split <;> rfl
  | fail | unmark | settle | openFunction | indent => rfl
  | dedent => exact state.dedent_sameNotes.importCount
  | turn number => exact (state.commit_sameNotes _).importCount
  | add item => exact (state.addItem_sameNotes item).importCount
  | finish => exact (state.commit_sameNotes _).importCount
  | beginImport | countImports | finishImport => cases keeps

theorem takeAll_importCount {plan : Plan} (keeps : plan.Consists Step.KeepsImports)
    (taken : before.takeAll grammar plan = ⟨after, none⟩) : after.importCount = before.importCount := by
  have kept : (before.takeAll grammar plan).state.importCount = before.importCount := by
    apply takeAll_preserves (motive := fun state => state.importCount = before.importCount) _ rfl
    intro step member middle same
    exact (take_importCount (keeps step member) middle).trans same
  rwa [taken] at kept

/-- A dotted name takes one module off while modules are imported. -/
theorem takeAll_dottedName
    (taken : before.takeAll grammar (Plan.dottedName before path node) = ⟨after, none⟩) :
    after.importCount =
      if before.importing then
        ⟨before.importHalves.getD 0 - 2 ≠ 0, some (before.importHalves.getD 0 - 2)⟩
      else before.importCount := by
  unfold Plan.dottedName at taken
  split at taken
  next importing =>
    split at taken
    next =>
      rcases exists_takeAll_of_append taken with ⟨middle, marked, finished⟩
      have designates : Plan.Consists Step.Designates (Plan.markAll path node .inclusion) :=
        Plan.markAll_designates (by decide) path node
      have same := takeAll_importCount (designates.imp fun _ => Step.Designates.keepsImports) marked
      simp only [importCount, ImportCount.mk.injEq] at same
      cases finished
      simp [importCount, finishImport, same.1, same.2, importing]
    next => exact absurd taken (takeAll_fail _ _ _ _)
  next settled =>
    cases taken
    rw [if_neg settled]

/-- A visit does to the count what its node does. -/
theorem Passes.importCount (version : settings.grammar ∈ Grammar.versions)
    (passes : before.Passes settings path node after) (notes : before.OnlyNotes) :
    after.importCount = before.importCount.pass settings.grammar node := by
  cases passes with
  | construct isConstruct visited =>
      cases hasKind : node.kind with
      | error fault =>
          rw [visitConstruct, Plan.construct, hasKind] at visited
          exact absurd visited (takeAll_fail _ _ _ _)
      | ok kind =>
          rw [visitConstruct, Plan.construct_eq hasKind] at visited
          unfold ImportCount.pass
          split
          next isImport =>
            rw [isImport] at visited
            cases visited
            rfl
          next isList =>
            rw [isList] at visited
            simp only [Plan.ofConstruct, Plan.importedNames] at visited
            split at visited
            next importing =>
              cases visited
              simp [State.importCount, importing]
            next settled =>
              cases visited
              simp [State.importCount, settled]
          next isDotted =>
            rw [isDotted] at visited
            exact takeAll_dottedName visited
          next notImport notList notDotted =>
            apply takeAll_importCount _ visited
            apply Plan.ofConstruct_keepsImports
            simp only [List.mem_cons, List.not_mem_nil, or_false, not_or]
            exact ⟨notImport, notList, notDotted⟩
  | terminal number isTerminal numbered visited =>
      have other := Element.constructIn_terminal version isTerminal
      have passed : before.importCount.pass settings.grammar node = before.importCount := by
        simp [ImportCount.pass, other]
      rw [passed]
      rcases (visitTerminal_reads notes visited).sameNotes with same | same
      · exact same.importCount
      · exact same.importCount

/-- A chain of visits does to the count what its nodes do. -/
theorem Passage.importCount (version : settings.grammar ∈ Grammar.versions)
    {meetings : List (State × Path × Element)} (passage : Passage settings start meetings finish)
    (notes : start.OnlyNotes) :
    finish.importCount = start.importCount.passAll settings.grammar (meetings.map (·.2)) := by
  induction passage with
  | nil state => rfl
  | cons first others ih =>
      rw [ih (first.onlyNotes notes), first.importCount version notes, List.map_cons,
        ImportCount.passAll_cons]

end State

end CrossRef
