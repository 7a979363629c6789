import CrossRef.Proofs.PendingNotes

/-!
# Scopes

Two numbers decide where functions begin and end: the depth of indentation, and the level of the
outermost function around the place at hand, which is −1 outside any function.  They change by the
kinds of the nodes alone, so this file follows them through a list of nodes without the rest of a
walk's state, together with the boundaries of functions that the nodes make.  As long as no dedent
comes back to the level of the function nothing happens; the first one that does closes it.
-/

namespace CrossRef

namespace Element

/-- How much deeper the indentation is behind a node. -/
def deepening (node : Element) : Int :=
  if node.isOfKind Kind.indent then 1 else if node.isOfKind Kind.dedent then -1 else 0

def isFunction (grammar : Grammar) (node : Element) : Bool :=
  node.isOfKind grammar.functionDefinition

theorem deepening_of_indent {node : Element} (isIndent : node.isOfKind Kind.indent = true) :
    node.deepening = 1 := by
  simp [deepening, isIndent]

theorem deepening_of_dedent {node : Element} (isDedent : node.isOfKind Kind.dedent = true) :
    node.deepening = -1 := by
  simp [deepening, isDedent, not_isOfKind isDedent Kind.indent (by decide)]

theorem deepening_of_other {node : Element} (notIndent : node.isOfKind Kind.indent = false)
    (notDedent : node.isOfKind Kind.dedent = false) : node.deepening = 0 := by
  simp [deepening, notIndent, notDedent]

end Element

namespace Grammar

variable {grammar : Grammar}

theorem functionDefinition_eq (version : grammar ∈ versions) : grammar.functionDefinition = 262 := by
  rcases mem_versions.mp version with rfl | rfl | rfl <;> rfl

/-- What is of another kind is no function definition. -/
theorem not_isFunction (version : grammar ∈ versions) {node : Element} {kind : Nat}
    (isKind : node.isOfKind kind = true) (different : kind ≠ 262) :
    node.isFunction grammar = false := by
  apply Element.not_isOfKind isKind
  rw [functionDefinition_eq version]
  exact different

theorem isConstruct_of_isFunction (version : grammar ∈ versions) {node : Element}
    (isFunction : node.isFunction grammar = true) : node.isConstruct = .ok true := by
  apply Element.isConstruct_of_isOfKind isFunction
  rw [functionDefinition_eq version]
  decide

theorem deepening_of_isFunction (version : grammar ∈ versions) {node : Element}
    (isFunction : node.isFunction grammar = true) : node.deepening = 0 := by
  have isKind : node.isOfKind 262 = true := by rwa [← functionDefinition_eq version]
  exact Element.deepening_of_other (Element.not_isOfKind isKind _ (by decide))
    (Element.not_isOfKind isKind _ (by decide))

end Grammar

namespace Agenda

/-- How much deeper the indentation is behind some nodes. -/
def depth : List (Path × Element) → Int
  | [] => 0
  | entry :: rest => entry.2.deepening + depth rest

@[simp]
theorem depth_nil : depth [] = 0 := rfl

@[simp]
theorem depth_cons (entry : Path × Element) (rest : List (Path × Element)) :
    depth (entry :: rest) = entry.2.deepening + depth rest := rfl

@[simp]
theorem depth_append (first second : List (Path × Element)) :
    depth (first ++ second) = depth first + depth second := by
  induction first with
  | nil => simp
  | cons entry rest ih => simp [ih, Int.add_assoc]

/-- From the given depth on, no dedent leads below the outermost level. -/
def StaysAbove (depth : Int) (nodes : List (Path × Element)) : Prop :=
  ∀ early late, nodes = early ++ late → 0 ≤ depth + Agenda.depth early

theorem StaysAbove.left {level : Int} {first second : List (Path × Element)}
    (above : StaysAbove level (first ++ second)) : StaysAbove level first := by
  rintro early late rfl
  exact above early (late ++ second) (List.append_assoc _ _ _)

theorem StaysAbove.right {level : Int} {first second : List (Path × Element)}
    (above : StaysAbove level (first ++ second)) : StaysAbove (level + depth first) second := by
  rintro early late rfl
  have bound := above (first ++ early) late (by simp)
  rw [depth_append] at bound
  omega

/-- A dedent in some nodes comes back to the given depth. -/
def Returns (level : Int) (nodes : List (Path × Element)) : Prop :=
  ∃ early dedent late, nodes = early ++ dedent :: late ∧ dedent.2.isOfKind Kind.dedent = true ∧
    depth (early ++ [dedent]) = level

theorem returns_cons {level : Int} {entry : Path × Element} {rest : List (Path × Element)} :
    Returns level (entry :: rest) ↔
      entry.2.isOfKind Kind.dedent = true ∧ entry.2.deepening = level ∨
        Returns (level - entry.2.deepening) rest := by
  constructor
  · rintro ⟨early, dedent, late, isSplit, isDedent, reached⟩
    cases early with
    | nil =>
        cases isSplit
        exact Or.inl ⟨isDedent, by simpa using reached⟩
    | cons first early =>
        cases isSplit
        refine Or.inr ⟨early, dedent, late, rfl, isDedent, ?_⟩
        rw [List.cons_append, depth_cons] at reached
        omega
  · rintro (⟨isDedent, reached⟩ | ⟨early, dedent, late, rfl, isDedent, reached⟩)
    · exact ⟨[], entry, rest, rfl, isDedent, by simpa using reached⟩
    · refine ⟨entry :: early, dedent, late, rfl, isDedent, ?_⟩
      rw [List.cons_append, depth_cons]
      omega

/-- No dedent of nodes that stay above the outermost level comes back to a level below that. -/
theorem StaysAbove.not_returns {level below : Int} {nodes : List (Path × Element)}
    (above : StaysAbove level nodes) (isBelow : below < 0) : ¬ Returns (below - level) nodes := by
  rintro ⟨early, dedent, late, rfl, _, reached⟩
  have bound := above (early ++ [dedent]) late (by simp)
  omega

/-- No indents and no dedents. -/
def Flat (nodes : List (Path × Element)) : Prop :=
  ∀ entry ∈ nodes, entry.2.isOfKind Kind.indent = false ∧ entry.2.isOfKind Kind.dedent = false

theorem Flat.depth_eq {nodes : List (Path × Element)} (flat : Flat nodes) : depth nodes = 0 := by
  induction nodes with
  | nil => rfl
  | cons entry rest ih =>
      rcases List.forall_mem_cons.mp flat with ⟨here, later⟩
      rw [depth_cons, Element.deepening_of_other here.1 here.2, ih later]
      rfl

theorem Flat.not_returns {level : Int} {nodes : List (Path × Element)} (flat : Flat nodes) :
    ¬ Returns level nodes := by
  rintro ⟨early, dedent, late, rfl, isDedent, _⟩
  rw [(flat dedent (by simp)).2] at isDedent
  cases isDedent

end Agenda

/-- The place where a function begins or ends. -/
inductive Boundary where
  /-- A function definition marks a name. -/
  | opens (function name : Path)
  /-- A dedent ends a function. -/
  | closes (dedent : Path)
  deriving DecidableEq

namespace Boundary

/-- The function that begins here. -/
def function? : Boundary → Option Path
  | opens function _ => some function
  | closes _ => none

end Boundary

/-- What decides where functions begin and end. -/
structure Scope where
  indentation : Int
  functionLevel : Int

namespace Scope

/-- The scope behind a node. -/
def enter (grammar : Grammar) (scope : Scope) (node : Element) : Scope :=
  if node.isFunction grammar then
    if scope.functionLevel = -1 then ⟨scope.indentation, scope.indentation⟩ else scope
  else if node.isOfKind Kind.dedent && scope.indentation + node.deepening = scope.functionLevel then
    ⟨scope.indentation + node.deepening, -1⟩
  else ⟨scope.indentation + node.deepening, scope.functionLevel⟩

/-- The boundaries of functions that a node makes. -/
def boundaries (grammar : Grammar) (scope : Scope) (path : Path) (node : Element) : List Boundary :=
  if node.isFunction grammar then
    if scope.functionLevel = -1 then [.opens path (path ++ [2])] else []
  else if node.isOfKind Kind.dedent && scope.indentation + node.deepening = scope.functionLevel then
    [.closes path]
  else []

/-- One scope leads to another through some nodes, which make the given boundaries. -/
inductive Leads (grammar : Grammar) :
    Scope → List (Path × Element) → List Boundary → Scope → Prop where
  | nil (scope : Scope) : Leads grammar scope [] [] scope
  | cons {scope next : Scope} {path : Path} {node : Element} {rest : List (Path × Element)}
      {later : List Boundary} (others : Leads grammar (scope.enter grammar node) rest later next) :
      Leads grammar scope ((path, node) :: rest) (scope.boundaries grammar path node ++ later) next

variable {grammar : Grammar} {scope middle next : Scope}

theorem Leads.append {first second : List (Path × Element)} {early late : List Boundary}
    (leads : Leads grammar scope first early middle) (others : Leads grammar middle second late next) :
    Leads grammar scope (first ++ second) (early ++ late) next := by
  induction leads with
  | nil scope => exact others
  | cons leads ih =>
      rw [List.cons_append, List.append_assoc]
      exact .cons (ih others)

/-- Some nodes lead from a scope to one other scope only. -/
theorem Leads.unique {nodes : List (Path × Element)} {first second : List Boundary} {other : Scope}
    (leads : Leads grammar scope nodes first next) (again : Leads grammar scope nodes second other) :
    first = second ∧ next = other := by
  induction leads generalizing second with
  | nil scope =>
      cases again
      exact ⟨rfl, rfl⟩
  | cons leads ih =>
      cases again with
      | cons others =>
          rcases ih others with ⟨rfl, rfl⟩
          exact ⟨rfl, rfl⟩

theorem Leads.split {first second : List (Path × Element)} {boundaries : List Boundary}
    (leads : Leads grammar scope (first ++ second) boundaries next) :
    ∃ early middle late, boundaries = early ++ late ∧ Leads grammar scope first early middle ∧
      Leads grammar middle second late next := by
  induction first generalizing scope boundaries with
  | nil => exact ⟨[], scope, boundaries, rfl, .nil scope, leads⟩
  | cons entry first ih =>
      cases leads with
      | cons others =>
          rcases ih others with ⟨early, middle, late, rfl, former, latter⟩
          exact ⟨_, middle, late, (List.append_assoc _ _ _).symm, .cons former, latter⟩

variable {nodes : List (Path × Element)} {path : Path} {node : Element} {indentation level : Int}

theorem Leads.step {first later : List Boundary} (enters : scope.enter grammar node = middle)
    (makes : scope.boundaries grammar path node = first)
    (others : Leads grammar middle nodes later next) :
    Leads grammar scope ((path, node) :: nodes) (first ++ later) next := by
  subst enters makes
  exact .cons others

/-- A node that neither enters a function nor comes back to its level changes the depth alone. -/
theorem Leads.cons_quiet (version : grammar ∈ Grammar.versions)
    (settled : level = -1 → node.isFunction grammar = false)
    (away : node.isOfKind Kind.dedent = true → indentation + node.deepening ≠ level)
    {boundaries : List Boundary}
    (others : Leads grammar ⟨indentation + node.deepening, level⟩ nodes boundaries next) :
    Leads grammar ⟨indentation, level⟩ ((path, node) :: nodes) boundaries next := by
  cases isFunction : node.isFunction grammar with
  | true =>
      have inside : level ≠ -1 := by
        intro outside
        simp [settled outside] at isFunction
      rw [Grammar.deepening_of_isFunction version isFunction, Int.add_zero] at others
      have enters : Scope.enter grammar ⟨indentation, level⟩ node = ⟨indentation, level⟩ := by
        simp [enter, isFunction, inside]
      have makes : Scope.boundaries grammar ⟨indentation, level⟩ path node = [] := by
        simp [Scope.boundaries, isFunction, inside]
      exact Leads.step enters makes others
  | false =>
      have stays : (node.isOfKind Kind.dedent &&
          decide (indentation + node.deepening = level)) = false := by
        cases isDedent : node.isOfKind Kind.dedent with
        | false => rfl
        | true => simpa using away isDedent
      have enters : Scope.enter grammar ⟨indentation, level⟩ node =
          ⟨indentation + node.deepening, level⟩ := by
        simp [enter, isFunction, stays]
      have makes : Scope.boundaries grammar ⟨indentation, level⟩ path node = [] := by
        simp [Scope.boundaries, isFunction, stays]
      exact Leads.step enters makes others

/-- A function that begins outside any other opens a scope at the present depth. -/
theorem Leads.cons_function {boundaries : List Boundary} (isFunction : node.isFunction grammar = true)
    (others : Leads grammar ⟨indentation, indentation⟩ nodes boundaries next) :
    Leads grammar ⟨indentation, -1⟩ ((path, node) :: nodes)
      (.opens path (path ++ [2]) :: boundaries) next := by
  have enters : Scope.enter grammar ⟨indentation, -1⟩ node = ⟨indentation, indentation⟩ := by
    simp [enter, isFunction]
  have makes : Scope.boundaries grammar ⟨indentation, -1⟩ path node =
      [.opens path (path ++ [2])] := by
    simp [Scope.boundaries, isFunction]
  exact Leads.step enters makes others

/-- A dedent at the level of the function closes it. -/
theorem Leads.cons_close {boundaries : List Boundary} (version : grammar ∈ Grammar.versions)
    (isDedent : node.isOfKind Kind.dedent = true) (reached : indentation + node.deepening = level)
    (others : Leads grammar ⟨level, -1⟩ nodes boundaries next) :
    Leads grammar ⟨indentation, level⟩ ((path, node) :: nodes) (.closes path :: boundaries) next := by
  have notFunction := Grammar.not_isFunction version isDedent (by decide)
  have enters : Scope.enter grammar ⟨indentation, level⟩ node = ⟨level, -1⟩ := by
    simp [enter, notFunction, isDedent, reached]
  have makes : Scope.boundaries grammar ⟨indentation, level⟩ path node = [.closes path] := by
    simp [Scope.boundaries, notFunction, isDedent, reached]
  exact Leads.step enters makes others

/-- Nothing happens as long as no dedent comes back to the level of the function, or outside any
function as long as none begins. -/
theorem leads_quiet (version : grammar ∈ Grammar.versions)
    (settled : level = -1 → ∀ entry ∈ nodes, entry.2.isFunction grammar = false)
    (away : ¬ Agenda.Returns (level - indentation) nodes) :
    Leads grammar ⟨indentation, level⟩ nodes [] ⟨indentation + Agenda.depth nodes, level⟩ := by
  induction nodes generalizing indentation with
  | nil =>
      rw [Agenda.depth_nil, Int.add_zero]
      exact .nil _
  | cons entry rest ih =>
      rcases entry with ⟨path, node⟩
      rw [Agenda.returns_cons, not_or] at away
      rcases away with ⟨notHere, notLater⟩
      apply Leads.cons_quiet version
      · intro outside
        exact settled outside (path, node) List.mem_cons_self
      · intro isDedent reached
        apply notHere
        refine ⟨isDedent, ?_⟩
        simp only
        omega
      · rw [Agenda.depth_cons, ← Int.add_assoc]
        apply ih
        · intro outside entry member
          exact settled outside entry (List.mem_cons_of_mem _ member)
        · rwa [← Int.sub_sub]

/-- Inside a function nothing happens without indents and dedents. -/
theorem leads_flat (version : grammar ∈ Grammar.versions) (inside : level ≠ -1)
    (flat : Agenda.Flat nodes) :
    Leads grammar ⟨indentation, level⟩ nodes [] ⟨indentation, level⟩ := by
  have quiet : Leads grammar ⟨indentation, level⟩ nodes [] ⟨indentation + Agenda.depth nodes, level⟩ :=
    leads_quiet version (fun outside => absurd outside inside) flat.not_returns
  rwa [flat.depth_eq, Int.add_zero] at quiet

/-- A function that is left has been closed by a dedent at its level. -/
theorem Leads.returns (version : grammar ∈ Grammar.versions) {boundaries : List Boundary}
    (leads : Leads grammar ⟨indentation, level⟩ nodes boundaries next) (inside : level ≠ -1)
    (left : next.functionLevel ≠ level) : Agenda.Returns (level - indentation) nodes := by
  by_contra away
  have quiet := leads_quiet version (fun outside => absurd outside inside) away
  rw [(leads.unique quiet).2] at left
  exact left rfl

/-- The first dedent at the level of the function closes it, and behind that nothing happens if no
other function begins. -/
theorem leads_returning (version : grammar ∈ Grammar.versions)
    (noFunction : ∀ entry ∈ nodes, entry.2.isFunction grammar = false)
    (above : Agenda.StaysAbove indentation nodes)
    (returns : Agenda.Returns (level - indentation) nodes) :
    ∃ boundaries, boundaries.filterMap Boundary.function? = [] ∧
      Leads grammar ⟨indentation, level⟩ nodes boundaries ⟨indentation + Agenda.depth nodes, -1⟩ := by
  induction nodes generalizing indentation with
  | nil =>
      rcases returns with ⟨early, dedent, late, isSplit, _⟩
      simp at isSplit
  | cons entry rest ih =>
      rcases entry with ⟨path, node⟩
      have notFunction : node.isFunction grammar = false := noFunction _ List.mem_cons_self
      have othersNot : ∀ entry ∈ rest, entry.2.isFunction grammar = false :=
        fun entry member => noFunction entry (List.mem_cons_of_mem _ member)
      have restAbove : Agenda.StaysAbove (indentation + node.deepening) rest := by
        have later : Agenda.StaysAbove (indentation + Agenda.depth [(path, node)]) rest := above.right
        simpa using later
      rw [Agenda.depth_cons, ← Int.add_assoc]
      by_cases here : node.isOfKind Kind.dedent = true ∧ indentation + node.deepening = level
      · rcases here with ⟨isDedent, reached⟩
        have quiet := leads_quiet version (fun _ => othersNot)
          (restAbove.not_returns (Int.negSucc_lt_zero 0))
        rw [reached] at quiet ⊢
        exact ⟨[.closes path], rfl, quiet.cons_close version isDedent reached⟩
      · have later : Agenda.Returns (level - (indentation + node.deepening)) rest := by
          rcases Agenda.returns_cons.mp returns with ⟨isDedent, reached⟩ | later
          · exact absurd ⟨isDedent, by simp only at reached; omega⟩ here
          · rwa [← Int.sub_sub]
        rcases ih othersNot restAbove later with ⟨boundaries, none, leads⟩
        refine ⟨boundaries, none, Leads.cons_quiet version (fun _ => notFunction) ?_ leads⟩
        intro isDedent reached
        exact here ⟨isDedent, reached⟩

/-- Functions leave the depth to the indents and dedents. -/
theorem Leads.indentation_eq (version : grammar ∈ Grammar.versions) {boundaries : List Boundary}
    (leads : Leads grammar scope nodes boundaries next) :
    next.indentation = scope.indentation + Agenda.depth nodes := by
  induction leads with
  | nil scope => simp
  | @cons scope next path node rest later others ih =>
      have deeper : (scope.enter grammar node).indentation = scope.indentation + node.deepening := by
        unfold enter
        split
        next isFunction =>
          rw [Grammar.deepening_of_isFunction version isFunction, Int.add_zero]
          split <;> rfl
        next => split <;> rfl
      rw [ih, deeper, Agenda.depth_cons, Int.add_assoc]

/-- A boundary at which a function begins belongs to a function definition outside any function. -/
theorem Leads.exists_function {boundaries : List Boundary} {place : Path}
    (leads : Leads grammar scope nodes boundaries next) (opens : .opens path place ∈ boundaries) :
    place = path ++ [2] ∧ ∃ early function late former outside,
      nodes = early ++ (path, function) :: late ∧ function.isFunction grammar = true ∧
        Leads grammar scope early former outside ∧ outside.functionLevel = -1 := by
  induction leads with
  | nil scope => cases opens
  | @cons scope next here node rest later others ih =>
      rcases List.mem_append.mp opens with isHere | isLater
      · unfold Scope.boundaries at isHere
        split at isHere
        next isFunction =>
          split at isHere
          next outside =>
            cases List.mem_singleton.mp isHere
            exact ⟨rfl, [], node, rest, [], scope, rfl, isFunction, .nil scope, outside⟩
          next => cases isHere
        next =>
          split at isHere
          · cases List.mem_singleton.mp isHere
          · cases isHere
      · rcases ih isLater with
          ⟨isPlace, early, function, late, former, outside, rfl, isFunction, leads, isOutside⟩
        exact ⟨isPlace, (here, node) :: early, function, late, _, outside, rfl, isFunction,
          .cons leads, isOutside⟩

end Scope

end CrossRef
