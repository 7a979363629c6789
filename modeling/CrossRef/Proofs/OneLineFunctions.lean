import CrossRef.Proofs.FunctionMarks

/-!
# Functions on one line

A function whose body stands on its own line has no dedent, so a walk does not notice where it ends:
the function level stays at the function until some later dedent comes back to it.  A function that
begins before that is taken for one inside it, and its name is not written as a definition.  Exactly
this decides whether a walk through a module marks the right names: they are right if and only if
behind every outermost function on one line a dedent comes back to its level before the next outermost
function begins.
-/

namespace CrossRef

namespace Agenda

theorem Returns.of_flat {level : Int} {front nodes : List (Path × Element)} (flat : Flat front)
    (returns : Returns level (front ++ nodes)) : Returns level nodes := by
  induction front with
  | nil => exact returns
  | cons entry rest ih =>
      rcases List.forall_mem_cons.mp flat with ⟨here, later⟩
      apply ih later
      rcases returns_cons.mp returns with ⟨isDedent, _⟩ | later
      · rw [here.2] at isDedent
        cases isDedent
      · rwa [Element.deepening_of_other here.1 here.2, Int.sub_zero] at later

end Agenda

namespace Element

/-- The function definition at a path starts with the word `def` and a name, and nothing in it is
indented. -/
inductive OneLineFunction (path : Path) : Element → Prop where
  | intro {kind word name : Element} {rest : List Element}
      (isWord : word.isOfKind Kind.name = true) (isDef : word.wording = "def")
      (isName : name.isOfKind Kind.name = true)
      (flat : ∀ entry ∈ (Element.node (kind :: word :: name :: rest)).preorder path,
        entry.2.isOfKind Kind.indent = false ∧ entry.2.isOfKind Kind.dedent = false) :
      OneLineFunction path (.node (kind :: word :: name :: rest))

/-- A tree that closes the indentations it opens, and whose functions have bodies on their own lines
or indented ones. -/
structure ModuleTree (grammar : Grammar) (tree : Element) : Prop where
  orderly : tree.Orderly
  nested : Agenda.Nested (tree.preorder [])
  functions : ∀ entry ∈ tree.preorder [], entry.2.isFunction grammar = true →
    OneLineFunction entry.1 entry.2 ∨ IndentedFunction entry.1 entry.2

variable {tree node : Element} {path : Path}

/-- Nothing below a function on one line is indented. -/
theorem OneLineFunction.flat (function : OneLineFunction path node) :
    Agenda.Flat (Agenda.preorder (node.children path)) := by
  cases function with
  | intro isWord isDef isName flat =>
      intro entry member
      apply flat
      rw [Agenda.preorder_children]
      exact List.mem_cons_of_mem _ member

theorem OneLineFunction.headed (orderly : tree.Orderly) (inTree : (path, node) ∈ tree.preorder [])
    (function : OneLineFunction path node) : Headed path node := by
  cases function with
  | intro isWord isDef isName flat =>
      exact ⟨_, _, _, _, _, rfl, isWord, isName, orderly.preorder_headed inTree isWord isName⟩

/-- A function on one line that begins outside any other is not left. -/
theorem OneLineFunction.leads {grammar : Grammar} (version : grammar ∈ Grammar.versions)
    (isFunction : node.isFunction grammar = true) (function : OneLineFunction path node)
    {indentation : Int} (above : 0 ≤ indentation) :
    Scope.Leads grammar ⟨indentation, -1⟩ (node.preorder path) [.opens path (path ++ [2])]
      ⟨indentation, indentation⟩ := by
  rw [Agenda.preorder_children]
  exact Scope.Leads.cons_function isFunction (Scope.leads_flat version (by omega) function.flat)

theorem ModuleTree.headed {grammar : Grammar} (shape : tree.ModuleTree grammar)
    {entry : Path × Element} (inTree : entry ∈ tree.preorder [])
    (isFunction : entry.2.isFunction grammar = true) : Headed entry.1 entry.2 := by
  rcases shape.functions entry inTree isFunction with oneLine | indented
  · exact oneLine.headed shape.orderly inTree
  · exact indented.headed shape.orderly inTree

end Element

namespace Agenda

variable {grammar : Grammar} {nodes functions : List (Path × Element)} {indentation level : Int}

/-- Behind every function on one line, a dedent comes back to its level before the next of the given
functions. -/
def ReturnsBetween (nodes functions : List (Path × Element)) : Prop :=
  ∀ early first between second late, nodes = early ++ first :: (between ++ second :: late) →
    first ∈ functions → Element.OneLineFunction first.1 first.2 → second ∈ functions →
      Returns 0 between

/-- Nodes without a function open none. -/
theorem leads_without_function (version : grammar ∈ Grammar.versions)
    (noFunction : ∀ entry ∈ nodes, entry.2.isFunction grammar = false)
    (above : StaysAbove indentation nodes) :
    ∃ boundaries next, boundaries.filterMap Boundary.function? = [] ∧
      Scope.Leads grammar ⟨indentation, level⟩ nodes boundaries next := by
  by_cases returns : Returns (level - indentation) nodes
  · rcases Scope.leads_returning version noFunction above returns with ⟨boundaries, opened, leads⟩
    exact ⟨boundaries, _, opened, leads⟩
  · exact ⟨[], _, rfl, Scope.leads_quiet version (fun _ => noFunction) returns⟩

/-- If every function on one line is left before the next one begins, the outermost functions are the
ones that are opened. -/
theorem Laid.opened (version : grammar ∈ Grammar.versions) (laid : Laid grammar nodes functions)
    (shapes : ∀ entry ∈ functions, Element.OneLineFunction entry.1 entry.2 ∨
      Element.SelfContained grammar entry)
    (returning : ReturnsBetween nodes functions) (above : StaysAbove indentation nodes)
    (pending : level = -1 ∨ ∀ between second late, nodes = between ++ second :: late →
      second ∈ functions → Returns (level - indentation) between) :
    ∃ boundaries next, boundaries.filterMap Boundary.function? = functions.map Prod.fst ∧
      Scope.Leads grammar ⟨indentation, level⟩ nodes boundaries next := by
  induction laid generalizing indentation level with
  | plain noFunction => exact leads_without_function version noFunction above
  | @function front rest functions path node noFunction isFunction others ih =>
      have isNext : front ++ (node.preorder path ++ rest) =
          front ++ (path, node) :: (preorder (node.children path) ++ rest) := by
        rw [Agenda.preorder_children]
        rfl
      have inFront : ∃ boundaries, boundaries.filterMap Boundary.function? = [] ∧
          Scope.Leads grammar ⟨indentation, level⟩ front boundaries
            ⟨indentation + depth front, -1⟩ := by
        rcases pending with rfl | returns
        · exact ⟨[], rfl, Scope.leads_quiet version (fun _ => noFunction)
            (above.left.not_returns (Int.negSucc_lt_zero 0))⟩
        · exact Scope.leads_returning version noFunction above.left
            (returns front (path, node) _ isNext List.mem_cons_self)
      have aboveFunction : 0 ≤ indentation + depth front := above front _ rfl
      have restReturning : ReturnsBetween rest functions := by
        rintro early first between second late rfl isFirst isOneLine isSecond
        apply returning (front ++ (node.preorder path ++ early)) first between second late _
          (List.mem_cons_of_mem _ isFirst) isOneLine (List.mem_cons_of_mem _ isSecond)
        simp
      have restShapes := fun entry member => shapes entry (List.mem_cons_of_mem (path, node) member)
      rcases inFront with ⟨early, noneEarly, inFront⟩
      rcases shapes (path, node) List.mem_cons_self with oneLine | closed
      · have inFunction := oneLine.leads version isFunction aboveFunction
        have aboveRest := above.right.right
        rw [← inFunction.indentation_eq version] at aboveRest
        -- What comes back behind the function does so behind its own nodes, which are flat.
        have restPending : ∀ between second late, rest = between ++ second :: late →
            second ∈ functions → Returns (indentation + depth front - (indentation + depth front))
              between := by
          rintro between second late rfl isSecond
          have returns := returning front (path, node) (preorder (node.children path) ++ between) second
            late (by simpa using isNext) List.mem_cons_self oneLine (List.mem_cons_of_mem _ isSecond)
          rw [Int.sub_self]
          exact returns.of_flat oneLine.flat
        rcases ih restShapes restReturning aboveRest (Or.inr restPending) with
          ⟨late, next, opened, inRest⟩
        refine ⟨_, next, ?_, inFront.append (inFunction.append inRest)⟩
        rw [List.filterMap_append, List.filterMap_append, noneEarly, opened]
        rfl
      · have inFunction := closed (indentation + depth front) aboveFunction
        have aboveRest := above.right.right
        rw [← inFunction.indentation_eq version] at aboveRest
        rcases ih restShapes restReturning aboveRest (Or.inl rfl) with ⟨late, next, opened, inRest⟩
        refine ⟨_, next, ?_, inFront.append (inFunction.append inRest)⟩
        rw [List.filterMap_append, List.filterMap_append, noneEarly, opened]
        rfl

end Agenda

namespace Walk

variable {settings : Settings} {tree : Element}

/-- The boundaries of functions that show on a walk through a module. -/
def boundaries (walk : Walk) : List Boundary :=
  State.boundariesAlong (walk.steps {})

theorem ofTree_leads (version : settings.grammar ∈ Grammar.versions)
    (shape : tree.ModuleTree settings.grammar) (complete : (ofTree settings tree).fault = none) :
    Scope.Leads settings.grammar ⟨0, -1⟩ (tree.preorder []) (ofTree settings tree).boundaries
      (ofTree settings tree).state.scope :=
  (below_tracks complete).leads version
    (fun _ member isFunction => (shape.headed member isFunction).declared) State.regular_empty

/-- The name of a function is written as a definition if the function is opened. -/
theorem ofTree_defines_iff (version : settings.grammar ∈ Grammar.versions)
    (shape : tree.ModuleTree settings.grammar) (complete : (ofTree settings tree).fault = none)
    {entry : Path × Element} (inTree : entry ∈ tree.preorder [])
    (isFunction : entry.2.isFunction settings.grammar = true) :
    (ofTree settings tree).Defines {} (entry.1 ++ [2]) entry.2.functionName ↔
      .opens entry.1 (entry.1 ++ [2]) ∈ (ofTree settings tree).boundaries := by
  have unnoted : ∀ entry ∈ tree.preorder [], entry.1 ∉ State.definitions {} := by
    intro entry _ noted
    cases noted
  have leads := ofTree_leads version shape complete
  refine ((below_tracks complete).defines_iff version (fun _ => shape.headed) State.regular_empty
    unnoted).trans ?_
  constructor
  · rintro ⟨function, _, _, opens, _⟩
    have isEntry : entry.1 = function.1 := List.append_cancel_right (leads.exists_function opens).1
    rwa [← isEntry] at opens
  · intro opens
    exact ⟨entry, inTree, isFunction, opens, rfl⟩

/-- Where a function is opened the walk is outside any function. -/
theorem outside_of_opens (version : settings.grammar ∈ Grammar.versions)
    (shape : tree.ModuleTree settings.grammar) (complete : (ofTree settings tree).fault = none)
    {entry : Path × Element} {early late : List (Path × Element)}
    (isSplit : tree.preorder [] = early ++ entry :: late)
    (opens : .opens entry.1 (entry.1 ++ [2]) ∈ (ofTree settings tree).boundaries) :
    ∃ former outside, Scope.Leads settings.grammar ⟨0, -1⟩ early former outside ∧
      outside.functionLevel = -1 := by
  rcases (ofTree_leads version shape complete).exists_function opens with
    ⟨_, before, found, behind, former, outside, isFound, _, reached, isOutside⟩
  have same : entry.2 = found := by
    apply Element.eq_of_mem_preorder
    · rw [isSplit]
      exact List.mem_append_right _ List.mem_cons_self
    · rw [isFound]
      exact List.mem_append_right _ List.mem_cons_self
  rw [← same] at isFound
  rcases Element.split_unique isSplit isFound with ⟨rfl, _⟩
  exact ⟨former, outside, reached, isOutside⟩

/-- If two functions are both opened, the walk comes back to the level of the first in between. -/
theorem returns_of_opens (version : settings.grammar ∈ Grammar.versions)
    (shape : tree.ModuleTree settings.grammar) (complete : (ofTree settings tree).fault = none)
    {first second : Path × Element} {early between late : List (Path × Element)}
    (isSplit : tree.preorder [] = early ++ first :: (between ++ second :: late))
    (isFunction : first.2.isFunction settings.grammar = true)
    (firstOpens : .opens first.1 (first.1 ++ [2]) ∈ (ofTree settings tree).boundaries)
    (secondOpens : .opens second.1 (second.1 ++ [2]) ∈ (ofTree settings tree).boundaries) :
    Agenda.Returns 0 between := by
  rcases outside_of_opens version shape complete isSplit firstOpens with
    ⟨former, outside, reached, isOutside⟩
  have isLater : tree.preorder [] = (early ++ first :: between) ++ second :: late := by
    rw [isSplit]
    simp
  rcases outside_of_opens version shape complete isLater secondOpens with
    ⟨latter, beyond, goesOn, isBeyond⟩
  have above : 0 ≤ outside.indentation := by
    rw [reached.indentation_eq version]
    exact shape.nested.opened early _ isSplit
  rcases goesOn.split with ⟨_, middle, _, _, again, fromFirst⟩
  rw [← (reached.unique again).2] at fromFirst
  have enters : outside.enter settings.grammar first.2 =
      ⟨outside.indentation, outside.indentation⟩ := by
    simp [Scope.enter, isFunction, isOutside]
  cases fromFirst with
  | cons fromFirst =>
      rw [enters] at fromFirst
      have returns := fromFirst.returns version (by omega) (by omega)
      rwa [Int.sub_self] at returns

/-- The names that a walk through a module writes as definitions are those of its outermost functions
if and only if it leaves every outermost function on one line before the next outermost function
begins, by a dedent back to its level.  Functions with indented bodies never stand in the way. -/
theorem outermost_defined_iff (settings : Settings) (version : settings.grammar ∈ Grammar.versions)
    (tree : Element) (shape : tree.ModuleTree settings.grammar)
    (complete : (ofTree settings tree).fault = none) :
    (∀ entry ∈ tree.preorder [], entry.2.isFunction settings.grammar = true →
      ((ofTree settings tree).Defines {} (entry.1 ++ [2]) entry.2.functionName ↔
        Agenda.surrounds settings.grammar (tree.preorder []) entry.1 = false)) ↔
    Agenda.ReturnsBetween (tree.preorder []) (tree.outermost settings.grammar []) := by
  constructor
  · intro right early first between second late isSplit isFirst _ isSecond
    have opens : ∀ entry ∈ tree.outermost settings.grammar [],
        .opens entry.1 (entry.1 ++ [2]) ∈ (ofTree settings tree).boundaries := by
      intro entry member
      rcases Element.mem_outermost.mp member with ⟨inTree, isFunction, free⟩
      apply (ofTree_defines_iff version shape complete inTree isFunction).mp
      exact (right entry inTree isFunction).mpr free
    exact returns_of_opens version shape complete isSplit (Element.mem_outermost.mp isFirst).2.1
      (opens first isFirst) (opens second isSecond)
  · intro returning entry inTree isFunction
    have shapes : ∀ entry ∈ tree.outermost settings.grammar [],
        Element.OneLineFunction entry.1 entry.2 ∨
          Element.SelfContained settings.grammar entry := by
      intro entry member
      rcases Element.mem_outermost.mp member with ⟨inTree, isFunction, _⟩
      rcases shape.functions entry inTree isFunction with oneLine | indented
      · exact Or.inl oneLine
      · exact Or.inr (indented.selfContained version shape.orderly inTree isFunction)
    rcases (Agenda.laid_preorder [] tree).opened version shapes returning shape.nested.opened
      (Or.inl rfl) with ⟨boundaries, next, opened, leads⟩
    have same := ((ofTree_leads version shape complete).unique leads).1
    rw [ofTree_defines_iff version shape complete inTree isFunction, same]
    constructor
    · intro opens
      have isOpened : entry.1 ∈ boundaries.filterMap Boundary.function? :=
        List.mem_filterMap.mpr ⟨_, opens, rfl⟩
      rw [opened] at isOpened
      rcases List.mem_map.mp isOpened with ⟨⟨place, function⟩, isOutermost, isPlace⟩
      rw [← isPlace]
      exact (Element.mem_outermost.mp isOutermost).2.2
    · intro free
      have isOpened : entry.1 ∈ boundaries.filterMap Boundary.function? := by
        rw [opened]
        exact List.mem_map_of_mem (Element.mem_outermost.mpr ⟨inTree, isFunction, free⟩)
      rcases List.mem_filterMap.mp isOpened with ⟨boundary, isBoundary, isFunction⟩
      cases boundary with
      | opens function name =>
          cases isFunction
          rcases leads.exists_function isBoundary with ⟨rfl, _⟩
          exact isBoundary
      | closes dedent => cases isFunction

/-- The tree of a function on one line. -/
def oneLineTree (name : String) (line : Int) : Element :=
  .node [.int 262, .node [.int 1, .text "def", .int line], .node [.int 1, .text name, .int line],
    .node [.int 263, .node [.int 7, .text "(", .int line], .node [.int 8, .text ")", .int line]],
    .node [.int 11, .text ":", .int line], .node [.int 301, passTree line]]

/-- The tree of a class with a condition between two functions on one line. -/
def separatedOneLiners : Element :=
  .node [.int 257,
    compoundTree (.node [.int 329, .node [.int 1, .text "class", .int 1],
      .node [.int 1, .text "C", .int 1], .node [.int 11, .text ":", .int 1],
      .node [.int 301, .node [.int 4, .text "", .int 1], .node [.int 5, .text "", .int 2],
        compoundTree (oneLineTree "f" 2),
        compoundTree (.node [.int 294, .node [.int 1, .text "if", .int 3],
          .node [.int 1, .text "x", .int 3], .node [.int 11, .text ":", .int 3],
          .node [.int 301, .node [.int 4, .text "", .int 3], .node [.int 5, .text "", .int 4],
            .node [.int 268, passTree 4], .node [.int 6, .text "", .int 5]]]),
        compoundTree (oneLineTree "g" 5), .node [.int 6, .text "", .int 6]]]),
    .node [.int 0, .text "", .int 6]]

theorem separatedOneLiners_moduleTree : separatedOneLiners.ModuleTree .version3 := by
  have functions : (separatedOneLiners.preorder []).filter
      (fun entry => entry.2.isFunction .version3) =
        [([1, 1, 1, 4, 3, 1, 1], oneLineTree "f" 2), ([1, 1, 1, 4, 5, 1, 1], oneLineTree "g" 5)] := rfl
  refine ⟨by decide +kernel, by decide +kernel, forall_functions functions ?_⟩
  simp only [List.forall_mem_cons, List.not_mem_nil, false_imp_iff, implies_true, and_true]
  constructor
  · exact Or.inl (.intro rfl rfl rfl (by decide +kernel))
  · exact Or.inl (.intro rfl rfl rfl (by decide +kernel))

theorem outermost_defined_separatedOneLiners :
    separatedOneLiners.ModuleTree .version3 ∧ (ofTree {} separatedOneLiners).fault = none ∧
      Agenda.ReturnsBetween (separatedOneLiners.preorder [])
        (separatedOneLiners.outermost .version3 []) := by
  have version : Settings.grammar {} ∈ Grammar.versions := List.mem_cons_self
  have complete : (ofTree {} separatedOneLiners).fault = none := by
    rw [ofTree_eq_visitEach]
    decide +kernel
  have opened : ∀ entry ∈ separatedOneLiners.preorder [],
      entry.2.isFunction .version3 = true →
        (.opens entry.1 (entry.1 ++ [2]) ∈ (ofTree {} separatedOneLiners).boundaries ↔
          Agenda.surrounds .version3 (separatedOneLiners.preorder []) entry.1 = false) := by
    rw [ofTree_eq_visitEach]
    decide +kernel
  refine ⟨separatedOneLiners_moduleTree, complete, ?_⟩
  apply (outermost_defined_iff {} version separatedOneLiners separatedOneLiners_moduleTree complete).mp
  intro entry inTree isFunction
  rw [ofTree_defines_iff version separatedOneLiners_moduleTree complete inTree isFunction]
  exact opened entry inTree isFunction

/-- The tree of a module with two functions on one line. -/
def twoOneLiners : Element :=
  .node [.int 257, compoundTree (oneLineTree "f" 1), compoundTree (oneLineTree "g" 2),
    .node [.int 0, .text "", .int 3]]

/-- Of two functions on one line only the first is written as a definition, though neither lies in the
other. -/
theorem twoOneLiners_undefined :
    twoOneLiners.ModuleTree .version3 ∧ (ofTree {} twoOneLiners).fault = none ∧
      ¬ ∀ entry ∈ twoOneLiners.preorder [], entry.2.isFunction .version3 = true →
        ((ofTree {} twoOneLiners).Defines {} (entry.1 ++ [2]) entry.2.functionName ↔
          Agenda.surrounds .version3 (twoOneLiners.preorder []) entry.1 = false) := by
  have functions : (twoOneLiners.preorder []).filter (fun entry => entry.2.isFunction .version3) =
      [([1, 1, 1], oneLineTree "f" 1), ([2, 1, 1], oneLineTree "g" 2)] := rfl
  have shape : twoOneLiners.ModuleTree .version3 := by
    refine ⟨by decide +kernel, by decide +kernel, forall_functions functions ?_⟩
    simp only [List.forall_mem_cons, List.not_mem_nil, false_imp_iff, implies_true, and_true]
    constructor
    · exact Or.inl (.intro rfl rfl rfl (by decide +kernel))
    · exact Or.inl (.intro rfl rfl rfl (by decide +kernel))
  have complete : (ofTree {} twoOneLiners).fault = none := by
    rw [ofTree_eq_visitEach]
    decide +kernel
  have opened : (ofTree {} twoOneLiners).boundaries = [.opens [1, 1, 1] [1, 1, 1, 2]] := by
    rw [ofTree_eq_visitEach]
    decide +kernel
  refine ⟨shape, complete, ?_⟩
  intro right
  have second : ([2, 1, 1], oneLineTree "g" 2) ∈ (twoOneLiners.preorder []).filter
      (fun entry => entry.2.isFunction .version3) := by
    rw [functions]
    exact List.mem_cons_of_mem _ List.mem_cons_self
  rcases List.mem_filter.mp second with ⟨inTree, isFunction⟩
  have defined := (right _ inTree isFunction).mpr (by decide +kernel)
  have version : Settings.grammar {} ∈ Grammar.versions := List.mem_cons_self
  rw [ofTree_defines_iff version shape complete inTree isFunction, opened] at defined
  exact absurd defined (by decide)

end Walk

end CrossRef
