import CrossRef.Proofs.FunctionLevels

/-!
# Functions with indented bodies

In a tree whose functions all have indented bodies, a walk through a statement comes back to the
indentation and the function level that it started with.  If it starts outside any function, each
outermost function of the statement begins at its name and ends at the dedent of its own body, one
after the other, and nothing else begins or ends; inside a function nothing begins or ends at all.

The order of reading a tree is laid out as stretches without a function, with the outermost functions
between them.  An indented function leads from a scope outside any function back to that scope, and a
stretch without a function changes the depth alone, so the layout leads through the whole statement.
-/

namespace CrossRef

namespace Kind

def statement : Nat := 268

def suite : Nat := 301

end Kind

namespace Agenda

/-- Every indentation is closed, and none is closed that has not been opened. -/
structure Nested (nodes : List (Path × Element)) : Prop where
  closed : depth nodes = 0
  opened : StaysAbove 0 nodes

/-- Whether one of some nodes is a function around a place. -/
def surrounds (grammar : Grammar) (nodes : List (Path × Element)) (place : Path) : Bool :=
  nodes.any fun other => other.2.isFunction grammar && other.1 != place && other.1.isPrefixOf place

theorem surrounds_iff {grammar : Grammar} {nodes : List (Path × Element)} {place : Path} :
    surrounds grammar nodes place = true ↔
      ∃ other ∈ nodes, other.2.isFunction grammar = true ∧ other.1 ≠ place ∧ other.1 <+: place := by
  simp [surrounds, and_assoc]

theorem nested_nil : Nested [] := by
  refine ⟨rfl, ?_⟩
  intro early late isSplit
  simp [(List.append_eq_nil_iff.mp isSplit.symm).1]

theorem Nested.append {first second : List (Path × Element)} (former : Nested first)
    (latter : Nested second) : Nested (first ++ second) := by
  constructor
  · rw [depth_append, former.closed, latter.closed]
    rfl
  · intro early late isSplit
    rcases List.append_eq_append_iff.mp isSplit with ⟨more, rfl, isSecond⟩ | ⟨more, isFirst, _⟩
    · have bound := latter.opened more late isSecond
      rw [depth_append, former.closed]
      omega
    · exact former.opened early more isFirst

theorem nested_iff_take {nodes : List (Path × Element)} :
    Nested nodes ↔
      depth nodes = 0 ∧ ∀ count < nodes.length + 1, 0 ≤ depth (nodes.take count) := by
  constructor
  · intro nested
    refine ⟨nested.closed, fun count _ => ?_⟩
    have bound := nested.opened _ _ (List.take_append_drop count nodes).symm
    omega
  · rintro ⟨closed, taken⟩
    refine ⟨closed, ?_⟩
    rintro early late rfl
    have bound := taken early.length (by rw [List.length_append]; omega)
    rw [List.take_left] at bound
    omega

instance (nodes : List (Path × Element)) : Decidable (Nested nodes) :=
  decidable_of_iff _ nested_iff_take.symm

theorem nested_preorder {agenda : Agenda}
    (each : ∀ entry ∈ agenda, Nested (entry.2.preorder entry.1)) : Nested agenda.preorder := by
  induction agenda with
  | nil => exact nested_nil
  | cons entry rest ih =>
      apply Nested.append (each entry List.mem_cons_self)
      apply ih
      intro other member
      exact each other (List.mem_cons_of_mem _ member)

end Agenda

namespace Element

/-- The functions of a tree that lie in no other function of it. -/
def outermost (grammar : Grammar) (path : Path) (node : Element) : List (Path × Element) :=
  (node.preorder path).filter fun entry =>
    entry.2.isFunction grammar && !Agenda.surrounds grammar (node.preorder path) entry.1

/-- The name that a function definition gives to its function. -/
def functionName (node : Element) : String :=
  (node.elements[2]?.map wording).getD ""

/-- The way from a function definition to the last element of its body. -/
def bodyEnd (node : Element) : Path :=
  [node.elements.length - 1,
    (node.elements.getLast?.map fun body => body.elements.length).getD 0 - 1]

/-- The boundaries of a function that begins at its name and ends with its body. -/
def ownBoundaries (entry : Path × Element) : List Boundary :=
  [.opens entry.1 (entry.1 ++ [2]), .closes (entry.1 ++ entry.2.bodyEnd)]

/-- A tree whose sequences are all nodes, whose terminals have nothing below them and whose statements
close the indentations that they open. -/
structure Orderly (tree : Element) : Prop where
  free : tree.listFree = true
  leaves : ∀ entry ∈ tree.preorder [], entry.2.isTerminal = true → entry.2.children entry.1 = []
  statements : ∀ entry ∈ tree.preorder [], entry.2.isOfKind Kind.statement = true →
    Agenda.Nested (entry.2.preorder entry.1)

instance (tree : Element) : Decidable tree.Orderly :=
  decidable_of_iff (tree.listFree = true ∧
    (∀ entry ∈ tree.preorder [], entry.2.isTerminal = true → entry.2.children entry.1 = []) ∧
      ∀ entry ∈ tree.preorder [], entry.2.isOfKind Kind.statement = true →
        Agenda.Nested (entry.2.preorder entry.1))
    ⟨fun ⟨free, leaves, statements⟩ => ⟨free, leaves, statements⟩,
      fun ⟨free, leaves, statements⟩ => ⟨free, leaves, statements⟩⟩

/-- The function definition at a path starts with the word `def` and a name, its last element is an
indented body of statements, and nothing else in it is indented. -/
inductive IndentedFunction (path : Path) : Element → Prop where
  | intro {kind word name suite newline indent dedent : Element} {header statements : List Element}
      (isWord : word.isOfKind Kind.name = true) (isDef : word.wording = "def")
      (isName : name.isOfKind Kind.name = true)
      (isSuite : suite.isNumber Kind.suite = true) (isNewline : newline.isOfKind Kind.newline = true)
      (isIndent : indent.isOfKind Kind.indent = true) (isDedent : dedent.isOfKind Kind.dedent = true)
      (nonempty : statements ≠ [])
      (areStatements : ∀ statement ∈ statements, statement.isOfKind Kind.statement = true)
      (confined : ∀ entry ∈ (Element.node (kind :: word :: name :: (header ++
          [.node (suite :: newline :: indent :: (statements ++ [dedent]))]))).preorder path,
        entry.2.isOfKind Kind.indent = true ∨ entry.2.isOfKind Kind.dedent = true →
          path ++ [header.length + 3] <+: entry.1) :
      IndentedFunction path (.node (kind :: word :: name :: (header ++
        [.node (suite :: newline :: indent :: (statements ++ [dedent]))])))

/-- A tree whose functions all have indented bodies. -/
structure Indented (grammar : Grammar) (tree : Element) : Prop where
  orderly : tree.Orderly
  functions : ∀ entry ∈ tree.preorder [], entry.2.isFunction grammar = true →
    IndentedFunction entry.1 entry.2

/-! ## The nodes of a function -/

variable {tree node : Element} {path : Path}

theorem mem_preorder_of_element {elements : List Element} {index : Nat}
    (inTree : (path, node) ∈ tree.preorder [])
    (isElement : node.elements[index + 1]? = some (.node elements)) :
    (path ++ [index + 1], .node elements) ∈ tree.preorder [] := by
  apply mem_preorder_trans inTree
  exact mem_preorder.mpr
    (Or.inr ⟨_, mem_children.mpr ⟨index, elements, isElement, rfl⟩, self_mem_preorder _ _⟩)

/-- A terminal among the elements of a node comes alone in the order of reading. -/
theorem Orderly.preorderFrom_terminal (orderly : tree.Orderly)
    (inTree : (path, node) ∈ tree.preorder []) {terminal : Element} {kind : Nat} (index : Nat)
    (rest : List Element) (isElement : node.elements[index + 1]? = some terminal)
    (isKind : terminal.isOfKind kind = true) (isLow : kind < Kind.firstConstruct) :
    preorderFrom path (index + 1) (terminal :: rest) =
      (path ++ [index + 1], terminal) :: preorderFrom path (index + 2) rest := by
  have free := listFree_of_mem_preorder inTree orderly.free
  rcases exists_node_of_kind (listFree_element free isElement) isKind with ⟨elements, rfl⟩
  have leaf := orderly.leaves _ (mem_preorder_of_element inTree isElement)
    (isTerminal_of_isOfKind isKind isLow)
  rw [preorderFrom, Agenda.preorder_children, leaf]
  rfl

/-- The nodes of the definition at a path start with a word and a name. -/
def Headed (path : Path) (node : Element) : Prop :=
  ∃ kind word name rest below, node = .node (kind :: word :: name :: rest) ∧
    word.isOfKind Kind.name = true ∧ name.isOfKind Kind.name = true ∧
    node.preorder path = (path, node) :: (path ++ [1], word) :: (path ++ [2], name) :: below

theorem Headed.declared (headed : Headed path node) : node.Declared := by
  rcases headed with ⟨kind, word, name, rest, below, isNode, isWord, isName, _⟩
  exact ⟨kind, word, name, rest, isNode, isWord, isName⟩

theorem Orderly.preorder_headed (orderly : tree.Orderly) {kind word name : Element}
    {rest : List Element} (inTree : (path, .node (kind :: word :: name :: rest)) ∈ tree.preorder [])
    (isWord : word.isOfKind Kind.name = true) (isName : name.isOfKind Kind.name = true) :
    (Element.node (kind :: word :: name :: rest)).preorder path =
      (path, .node (kind :: word :: name :: rest)) :: (path ++ [1], word) :: (path ++ [2], name) ::
        preorderFrom path 3 rest := by
  rw [preorder, orderly.preorderFrom_terminal inTree 0 (name :: rest) rfl isWord (by decide),
    orderly.preorderFrom_terminal inTree 1 rest rfl isName (by decide)]

theorem IndentedFunction.headed (orderly : tree.Orderly) (inTree : (path, node) ∈ tree.preorder [])
    (function : IndentedFunction path node) : Headed path node := by
  rcases function with ⟨isWord, isDef, isName, isSuite, isNewline, isIndent, isDedent, nonempty,
    areStatements, confined⟩
  exact ⟨_, _, _, _, _, rfl, isWord, isName, orderly.preorder_headed inTree isWord isName⟩

/-- The nodes of an indented body. -/
theorem Orderly.preorder_body (orderly : tree.Orderly)
    {suite newline indent dedent : Element} {statements : List Element}
    (inTree : (path, .node (suite :: newline :: indent :: (statements ++ [dedent]))) ∈ tree.preorder [])
    (isNewline : newline.isOfKind Kind.newline = true) (isIndent : indent.isOfKind Kind.indent = true)
    (isDedent : dedent.isOfKind Kind.dedent = true) :
    (Element.node (suite :: newline :: indent :: (statements ++ [dedent]))).preorder path =
      (path, .node (suite :: newline :: indent :: (statements ++ [dedent]))) ::
        (path ++ [1], newline) :: (path ++ [2], indent) ::
          (preorderFrom path 3 statements ++ [(path ++ [statements.length + 3], dedent)]) := by
  have last : preorderFrom path (statements.length + 2 + 1) [dedent] =
      (path ++ [statements.length + 2 + 1], dedent) ::
        preorderFrom path (statements.length + 4) [] := by
    apply orderly.preorderFrom_terminal inTree (statements.length + 2) [] _ isDedent (by decide)
    simp [elements]
  rw [preorder, orderly.preorderFrom_terminal inTree 0 _ rfl isNewline (by decide),
    orderly.preorderFrom_terminal inTree 1 _ rfl isIndent (by decide), preorderFrom_append,
    Nat.add_comm (1 + 2), last]
  rfl

/-- The statements of a body are nested one after the other. -/
theorem Orderly.nested_statements (orderly : tree.Orderly)
    {suite newline indent dedent : Element} {statements : List Element}
    (inTree : (path, .node (suite :: newline :: indent :: (statements ++ [dedent]))) ∈ tree.preorder [])
    (areStatements : ∀ statement ∈ statements, statement.isOfKind Kind.statement = true) :
    Agenda.Nested (preorderFrom path 3 statements) := by
  rw [← Agenda.preorder_nodesFrom]
  apply Agenda.nested_preorder
  intro entry member
  rcases mem_nodesFrom.mp member with ⟨index, inner, isStatement, rfl⟩
  have isElement : (Element.node
      (suite :: newline :: indent :: (statements ++ [dedent]))).elements[index + 2 + 1]? =
        some (.node inner) := by
    have inside : index < statements.length := (List.getElem?_eq_some_iff.mp isStatement).1
    simpa [elements, List.getElem?_append_left inside] using isStatement
  have inBody := mem_preorder_of_element inTree isElement
  rw [Nat.add_comm 3 index]
  exact orderly.statements _ inBody (areStatements _ (List.mem_of_getElem? isStatement))

theorem bodyEnd_eq (front elements : List Element) :
    (Element.node (front ++ [.node elements])).bodyEnd = [front.length, elements.length - 1] := by
  simp [bodyEnd]

/-- What stands in front of the last element of a node does not lie below that. -/
theorem not_prefix_of_mem_preorderFrom {elements : List Element} {position : Nat}
    {entry : Path × Element} (member : entry ∈ preorderFrom path position elements) :
    ¬ path ++ [position + elements.length] <+: entry.1 := by
  rcases prefix_of_mem_preorderFrom member with ⟨index, inside, leads⟩
  intro goesOn
  exact not_prefix_of_apart (by omega) goesOn leads (List.prefix_refl _)

/-- In front of the body a function is flat, and the body is nested between an indent and the dedent
that ends the function. -/
theorem IndentedFunction.layout (orderly : tree.Orderly) (inTree : (path, node) ∈ tree.preorder [])
    (function : IndentedFunction path node) :
    ∃ front body indent dedent,
      node.preorder path =
        (path, node) :: (front ++ indent :: (body ++ [(path ++ node.bodyEnd, dedent)])) ∧
      Agenda.Flat front ∧ indent.2.isOfKind Kind.indent = true ∧ Agenda.Nested body ∧
      dedent.isOfKind Kind.dedent = true := by
  rcases function with ⟨isWord, isDef, isName, isSuite, isNewline, isIndent, isDedent, nonempty,
    areStatements, confined⟩
  rename_i kind word name suite newline indent dedent header statements
  let body := Element.node (suite :: newline :: indent :: (statements ++ [dedent]))
  have inBody : (path ++ [header.length + 2 + 1], body) ∈ tree.preorder [] := by
    apply mem_preorder_of_element inTree
    simp [elements]
  have nodes := orderly.preorder_headed inTree isWord isName
  rw [preorderFrom_append, Nat.add_comm 3, preorderFrom,
    orderly.preorder_body inBody isNewline isIndent isDedent] at nodes
  refine ⟨(path ++ [1], word) :: (path ++ [2], name) ::
      (preorderFrom path 3 header ++ [(path ++ [header.length + 3], body),
        (path ++ [header.length + 3] ++ [1], newline)]),
    preorderFrom (path ++ [header.length + 3]) 3 statements,
    (path ++ [header.length + 3] ++ [2], indent), dedent, ?_, ?_, isIndent,
    orderly.nested_statements inBody areStatements, isDedent⟩
  · have ends := bodyEnd_eq (kind :: word :: name :: header)
      (suite :: newline :: indent :: (statements ++ [dedent]))
    simp only [List.cons_append] at ends
    rw [nodes, ends]
    simp [preorderFrom, body]
  · have isBody : body.isOfKind Kind.suite = true :=
      (isOfKind_eq (entry_of_getElem? 0 rfl) Kind.suite).trans isSuite
    have other {entry : Path × Element} {found : Nat} (isKind : entry.2.isOfKind found = true)
        (notIndent : found ≠ Kind.indent) (notDedent : found ≠ Kind.dedent) :
        entry.2.isOfKind Kind.indent = false ∧ entry.2.isOfKind Kind.dedent = false :=
      ⟨not_isOfKind isKind _ notIndent, not_isOfKind isKind _ notDedent⟩
    intro entry member
    simp only [List.mem_cons, List.mem_append, List.not_mem_nil, or_false] at member
    rcases member with rfl | rfl | inHeader | rfl | rfl
    · exact other isWord (by decide) (by decide)
    · exact other isName (by decide) (by decide)
    · have outside := not_prefix_of_mem_preorderFrom inHeader
      rw [Nat.add_comm 3] at outside
      have inFunction : entry ∈ (Element.node (kind :: word :: name :: (header ++ [body]))).preorder
          path := by
        rw [nodes]
        simp [inHeader]
      constructor
      · cases isIndent : entry.2.isOfKind Kind.indent with
        | false => rfl
        | true => exact absurd (confined entry inFunction (Or.inl isIndent)) outside
      · cases isDedent : entry.2.isOfKind Kind.dedent with
        | false => rfl
        | true => exact absurd (confined entry inFunction (Or.inr isDedent)) outside
    · exact other isBody (by decide) (by decide)
    · exact other isNewline (by decide) (by decide)

/-- Entered outside any function, the function at a path is left with its own body. -/
def SelfContained (grammar : Grammar) (entry : Path × Element) : Prop :=
  ∀ indentation : Int, 0 ≤ indentation →
    Scope.Leads grammar ⟨indentation, -1⟩ (entry.2.preorder entry.1) (ownBoundaries entry)
      ⟨indentation, -1⟩

theorem IndentedFunction.selfContained {grammar : Grammar} (version : grammar ∈ Grammar.versions)
    (orderly : tree.Orderly) (inTree : (path, node) ∈ tree.preorder [])
    (isFunction : node.isFunction grammar = true) (function : IndentedFunction path node) :
    SelfContained grammar (path, node) := by
  intro indentation above
  rcases function.layout orderly inTree with
    ⟨front, body, indent, dedent, nodes, flat, isIndent, nested, isDedent⟩
  have inside : indentation ≠ -1 := by omega
  have inFront : Scope.Leads grammar ⟨indentation, indentation⟩ front [] ⟨indentation, indentation⟩ :=
    Scope.leads_flat version inside flat
  have inBody : Scope.Leads grammar ⟨indentation + 1, indentation⟩ body []
      ⟨indentation + 1, indentation⟩ := by
    have quiet : Scope.Leads grammar ⟨indentation + 1, indentation⟩ body []
        ⟨indentation + 1 + Agenda.depth body, indentation⟩ := by
      apply Scope.leads_quiet version fun outside => absurd outside inside
      have away := nested.opened.not_returns (Int.negSucc_lt_zero 0)
      have same : indentation - (indentation + 1) = Int.negSucc 0 - 0 := by omega
      rwa [same]
    rwa [nested.closed, Int.add_zero] at quiet
  rw [nodes]
  apply Scope.Leads.cons_function isFunction
  apply inFront.append
  rcases indent with ⟨place, indent⟩
  apply Scope.Leads.cons_quiet version fun outside => absurd outside inside
  · intro isDedent
    rw [not_isOfKind isIndent Kind.dedent (by decide)] at isDedent
    cases isDedent
  · rw [deepening_of_indent isIndent]
    apply inBody.append
    apply Scope.Leads.cons_close version isDedent
    · rw [deepening_of_dedent isDedent]
      omega
    · exact .nil _

/-! ## Outermost functions -/

theorem mem_outermost {grammar : Grammar} {entry : Path × Element} :
    entry ∈ node.outermost grammar path ↔
      entry ∈ node.preorder path ∧ entry.2.isFunction grammar = true ∧
        Agenda.surrounds grammar (node.preorder path) entry.1 = false := by
  simp [outermost]

/-- A function contains no other outermost function. -/
theorem outermost_of_function {grammar : Grammar} (isFunction : node.isFunction grammar = true) :
    node.outermost grammar path = [(path, node)] := by
  have first : Agenda.surrounds grammar (node.preorder path) path = false := by
    apply Bool.eq_false_iff.mpr
    intro surrounded
    rcases Agenda.surrounds_iff.mp surrounded with ⟨other, member, _, differs, isPrefix⟩
    exact differs (isPrefix.eq_of_length_le (prefix_of_mem_preorder member).length_le)
  have others : ∀ entry ∈ Agenda.preorder (node.children path),
      Agenda.surrounds grammar (node.preorder path) entry.1 = true := by
    intro entry member
    have inTree : entry ∈ node.preorder path := by
      rw [Agenda.preorder_children]
      exact List.mem_cons_of_mem _ member
    refine Agenda.surrounds_iff.mpr ⟨(path, node), self_mem_preorder path node, isFunction, ?_,
      prefix_of_mem_preorder inTree⟩
    have once := preorder_nodup path node
    rw [Agenda.preorder_children, List.map_cons, List.nodup_cons] at once
    intro same
    exact once.1 (List.mem_map.mpr ⟨entry, member, same.symm⟩)
  refine (congrArg (List.filter _) (Agenda.preorder_children path node)).trans ?_
  rw [List.filter_cons_of_pos (by simp [isFunction, first])]
  congr 1
  apply List.filter_eq_nil_iff.mpr
  intro entry member
  simp [others entry member]

/-- The outermost functions of what is no function are those of its children. -/
theorem outermost_of_other {grammar : Grammar} (notFunction : node.isFunction grammar = false) :
    node.outermost grammar path =
      (node.children path).flatMap fun child => child.2.outermost grammar child.1 := by
  have alike : ∀ child ∈ node.children path, ∀ entry ∈ child.2.preorder child.1,
      Agenda.surrounds grammar (node.preorder path) entry.1 =
        Agenda.surrounds grammar (child.2.preorder child.1) entry.1 := by
    intro child isChild entry member
    rw [Bool.eq_iff_iff, Agenda.surrounds_iff, Agenda.surrounds_iff]
    constructor
    · rintro ⟨other, inTree, isFunction, differs, isPrefix⟩
      rcases mem_preorder.mp inTree with rfl | ⟨another, isOther, inOther⟩
      · simp [notFunction] at isFunction
      · rcases mem_children.mp isChild with ⟨index, inner, isElement, rfl⟩
        rcases mem_children.mp isOther with ⟨position, content, isContent, rfl⟩
        by_cases same : position = index
        · subst same
          rw [isElement] at isContent
          cases isContent
          exact ⟨other, inOther, isFunction, differs, isPrefix⟩
        · exact absurd isPrefix (not_prefix_of_apart (by omega) (prefix_of_mem_preorder inOther)
            (prefix_of_mem_preorder member))
    · rintro ⟨other, inChild, around⟩
      exact ⟨other, mem_preorder.mpr (Or.inr ⟨child, isChild, inChild⟩), around⟩
  refine (congrArg (List.filter _) (Agenda.preorder_children path node)).trans ?_
  rw [List.filter_cons_of_neg (by simp [notFunction]), Agenda.preorder, List.filter_flatMap]
  apply List.flatMap_congr
  intro child isChild
  apply List.filter_congr
  intro entry member
  rw [alike child isChild entry member]

end Element

/-- Stretches of nodes without a function, with the given functions between them. -/
inductive Agenda.Laid (grammar : Grammar) :
    List (Path × Element) → List (Path × Element) → Prop where
  | plain {nodes : List (Path × Element)}
      (noFunction : ∀ entry ∈ nodes, entry.2.isFunction grammar = false) : Laid grammar nodes []
  | function {front rest functions : List (Path × Element)} {path : Path} {node : Element}
      (noFunction : ∀ entry ∈ front, entry.2.isFunction grammar = false)
      (isFunction : node.isFunction grammar = true) (others : Laid grammar rest functions) :
      Laid grammar (front ++ (node.preorder path ++ rest)) ((path, node) :: functions)

namespace Agenda

variable {grammar : Grammar}

theorem Laid.behind {front nodes functions : List (Path × Element)}
    (noFunction : ∀ entry ∈ front, entry.2.isFunction grammar = false)
    (laid : Laid grammar nodes functions) : Laid grammar (front ++ nodes) functions := by
  cases laid with
  | plain noneLater =>
      apply Laid.plain
      intro entry member
      exact (List.mem_append.mp member).elim (noFunction entry) (noneLater entry)
  | function noneLater isFunction others =>
      rw [← List.append_assoc]
      apply Laid.function _ isFunction others
      intro entry member
      exact (List.mem_append.mp member).elim (noFunction entry) (noneLater entry)

theorem Laid.append {first second early late : List (Path × Element)}
    (former : Laid grammar first early) (latter : Laid grammar second late) :
    Laid grammar (first ++ second) (early ++ late) := by
  induction former with
  | plain noFunction => exact latter.behind noFunction
  | function noFunction isFunction others ih =>
      rw [List.append_assoc, List.append_assoc]
      exact .function noFunction isFunction ih

/-- The order of reading is laid out by the outermost functions. -/
theorem laid_preorder (path : Path) (node : Element) :
    Laid grammar (node.preorder path) (node.outermost grammar path) := by
  induction path, node using Element.induction_children with
  | below path node ih =>
      have nothing : Laid grammar [] [] := .plain (by simp)
      cases isFunction : node.isFunction grammar with
      | true =>
          rw [Element.outermost_of_function isFunction]
          have laid : Laid grammar ([] ++ (node.preorder path ++ [])) [(path, node)] :=
            .function (by simp) isFunction nothing
          simpa using laid
      | false =>
          rw [Element.outermost_of_other isFunction, Agenda.preorder_children,
            ← List.singleton_append]
          apply Laid.behind
          · simpa using isFunction
          · clear isFunction
            unfold Agenda.preorder
            generalize node.children path = entries at ih
            induction entries with
            | nil => exact nothing
            | cons entry rest restLaid =>
                rw [List.flatMap_cons, List.flatMap_cons]
                apply Laid.append (ih entry List.mem_cons_self)
                apply restLaid
                intro other member
                exact ih other (List.mem_cons_of_mem _ member)

/-- Functions that are left where they were entered lead through a layout one after the other. -/
theorem Laid.leads (version : grammar ∈ Grammar.versions)
    {nodes functions : List (Path × Element)} (laid : Laid grammar nodes functions)
    (closed : ∀ entry ∈ functions, Element.SelfContained grammar entry)
    {indentation : Int} (above : StaysAbove indentation nodes) :
    Scope.Leads grammar ⟨indentation, -1⟩ nodes (functions.flatMap Element.ownBoundaries)
      ⟨indentation + depth nodes, -1⟩ := by
  induction laid generalizing indentation with
  | plain noFunction =>
      exact Scope.leads_quiet version (fun _ => noFunction)
        (above.not_returns (Int.negSucc_lt_zero 0))
  | @function front rest functions path node noFunction isFunction others ih =>
      have inFront := Scope.leads_quiet version (fun _ => noFunction)
        (above.left.not_returns (Int.negSucc_lt_zero 0))
      have inFunction := closed (path, node) List.mem_cons_self (indentation + depth front)
        (above front _ rfl)
      have flat := inFunction.indentation_eq version
      have aboveRest := above.right.right
      simp only at flat
      have back : indentation + depth front + depth (node.preorder path) =
          indentation + depth front := flat.symm
      rw [back] at aboveRest
      have inRest := ih (fun entry member => closed entry (List.mem_cons_of_mem _ member)) aboveRest
      rw [depth_append, depth_append, ← Int.add_assoc, ← Int.add_assoc, back]
      exact inFront.append (inFunction.append inRest)

end Agenda

/-- A statement leads back to the scope that it is entered with. -/
theorem Element.Indented.leads {grammar : Grammar} (version : grammar ∈ Grammar.versions)
    {tree : Element} (shape : tree.Indented grammar) {path : Path} {statement : Element}
    (inTree : (path, statement) ∈ tree.preorder [])
    (isStatement : statement.isOfKind Kind.statement = true) {indentation level : Int}
    (above : 0 ≤ indentation) (isLevel : level = -1 ∨ 0 ≤ level ∧ level < indentation) :
    Scope.Leads grammar ⟨indentation, level⟩ (statement.preorder path)
      (if level = -1 then (statement.outermost grammar path).flatMap ownBoundaries else [])
      ⟨indentation, level⟩ := by
  have nested := shape.orderly.statements _ inTree isStatement
  have back : indentation + Agenda.depth (statement.preorder path) = indentation := by
    rw [nested.closed, Int.add_zero]
  rcases isLevel with rfl | ⟨inside, below⟩
  · rw [if_pos rfl]
    have stays : Agenda.StaysAbove indentation (statement.preorder path) := by
      intro early late isSplit
      have bound := nested.opened early late isSplit
      omega
    have closed : ∀ entry ∈ statement.outermost grammar path, SelfContained grammar entry := by
      intro entry member
      rcases mem_outermost.mp member with ⟨inStatement, isFunction, _⟩
      have inWhole := mem_preorder_trans inTree inStatement
      have function := shape.functions entry inWhole isFunction
      exact function.selfContained version shape.orderly inWhole isFunction
    have leads := (Agenda.laid_preorder path statement).leads version closed stays
    rwa [back] at leads
  · have settled : level ≠ -1 := by omega
    rw [if_neg settled]
    have away := nested.opened.not_returns (show level - indentation < 0 by omega)
    rw [Int.sub_zero] at away
    have quiet : Scope.Leads grammar ⟨indentation, level⟩ (statement.preorder path) []
        ⟨indentation + Agenda.depth (statement.preorder path), level⟩ :=
      Scope.leads_quiet version (fun outside => absurd outside settled) away
    rwa [back] at quiet

namespace State

open Element in
/-- The names that a walk writes as definitions are those of the functions that begin on it. -/
theorem Tracks.defines_iff {settings : Settings} (version : settings.grammar ∈ Grammar.versions)
    {start finish : State} {path : Path} {node : Element} {steps : List (State × Path × State)}
    (tracks : Tracks settings start (node.preorder path) steps finish)
    (headed : ∀ entry ∈ node.preorder path, entry.2.isFunction settings.grammar = true →
      Headed entry.1 entry.2)
    (regular : start.Regular) (unnoted : ∀ entry ∈ node.preorder path, entry.1 ∉ start.definitions)
    {place : Path} {name : String} :
    (name ≠ "" ∧ ∃ before after, (before, place, after) ∈ steps ∧
        after.definitionText = before.definitionText ++ name) ↔
      ∃ function ∈ node.preorder path, function.2.isFunction settings.grammar = true ∧
        .opens function.1 place ∈ boundariesAlong steps ∧ name = function.2.functionName := by
  have leads := tracks.leads version (fun entry member isFunction =>
    (headed entry member isFunction).declared) regular
  constructor
  · rintro ⟨nonempty, before, after, isStep, grown⟩
    rcases tracks.exists_node regular isStep with ⟨terminal, inTree, written⟩
    have isDefined : before.definedName place terminal = name :=
      (String.append_right_inj _).mp (written.symm.trans grown)
    rw [← isDefined] at nonempty
    rcases labelled_of_definedName nonempty with ⟨held, isWording⟩
    rcases tracks.noted isStep (mem_definitions_of_label held) with old | ⟨function, opens⟩
    · exact absurd old (unnoted _ inTree)
    · rcases leads.exists_function opens with
        ⟨rfl, early, definition, late, _, _, isSplit, isFunction, _⟩
      have inNode : (function, definition) ∈ node.preorder path := by simp [isSplit]
      rcases headed _ inNode isFunction with ⟨kind, word, title, rest, below, rfl, _, _, nodes⟩
      have isTitle : (function ++ [2], title) ∈ node.preorder path := by
        apply mem_preorder_trans inNode
        rw [nodes]
        simp
      refine ⟨_, inNode, isFunction, opens, ?_⟩
      rw [← isDefined, ← isWording, eq_of_mem_preorder inTree isTitle]
      rfl
  · rintro ⟨⟨function, definition⟩, inTree, isFunction, opens, rfl⟩
    rcases leads.exists_function opens with
      ⟨rfl, early, found, late, former, outside, isSplit, _, reached, isOutside⟩
    have isFound : (function, found) ∈ node.preorder path := by simp [isSplit]
    cases eq_of_mem_preorder inTree isFound
    rcases headed _ inTree isFunction with ⟨kind, word, title, rest, below, rfl, isWord, isName, nodes⟩
    rcases preorder_split inTree with ⟨before, behind, inPiece⟩
    simp only [nodes, List.cons_append] at inPiece
    rcases split_unique isSplit inPiece with ⟨rfl, _⟩
    rw [inPiece] at tracks
    rcases tracks.split with ⟨first, middle, second, rfl, toFunction, fromFunction⟩
    have level : middle.functionLevel = -1 := by
      have again := toFunction.leads version (fun entry member isFunction =>
        (headed entry (by simp [isSplit, member]) isFunction).declared) regular
      rw [(reached.unique again).2] at isOutside
      exact isOutside
    rcases fromFunction.name_written version isFunction isWord isName (toFunction.regular regular) level
      with ⟨nonempty, start, after, isStep, grown⟩
    exact ⟨nonempty, start, after, List.mem_append_right _ isStep, grown⟩

end State

namespace Walk

/-- Functions with indented bodies begin and end in order.  A statement is left with the indentation
and the function level that it was entered with.  Outside any function each of its outermost functions
notes one definition, for its name, and has one end, at the dedent of its own body, before the next
one begins; inside a function nothing begins or ends.  The names of these functions are written as
definitions and no others are. -/
theorem functions_nest (settings : Settings) (version : settings.grammar ∈ Grammar.versions)
    (tree : Element) (shape : tree.Indented settings.grammar) (path : Path) (statement : Element)
    (inTree : (path, statement) ∈ tree.preorder [])
    (isStatement : statement.isOfKind Kind.statement = true) (before : State)
    (regular : before.Regular) (above : 0 ≤ before.indentation)
    (level : before.functionLevel = -1 ∨
      0 ≤ before.functionLevel ∧ before.functionLevel < before.indentation)
    (complete : (below settings before path statement).fault = none) :
    (below settings before path statement).state.indentation = before.indentation ∧
      (below settings before path statement).state.functionLevel = before.functionLevel ∧
      State.boundariesAlong ((below settings before path statement).steps before) =
        (if before.functionLevel = -1 then
          (statement.outermost settings.grammar path).flatMap Element.ownBoundaries
        else []) ∧
      ((∀ entry ∈ statement.preorder path, entry.1 ∉ before.definitions) → ∀ place name,
        (below settings before path statement).Defines before place name ↔
          before.functionLevel = -1 ∧ ∃ function ∈ statement.outermost settings.grammar path,
            place = function.1 ++ [2] ∧ name = function.2.functionName) := by
  have tracks := below_tracks complete
  have headed : ∀ entry ∈ statement.preorder path, entry.2.isFunction settings.grammar = true →
      Element.Headed entry.1 entry.2 := by
    intro entry member isFunction
    have inWhole := Element.mem_preorder_trans inTree member
    exact (shape.functions entry inWhole isFunction).headed shape.orderly inWhole
  have leads := tracks.leads version
    (fun entry member isFunction => (headed entry member isFunction).declared) regular
  have back := shape.leads version inTree isStatement above level
  rcases leads.unique back with ⟨boundaries, scope⟩
  refine ⟨congrArg Scope.indentation scope, congrArg Scope.functionLevel scope, boundaries, ?_⟩
  intro unnoted place name
  unfold Defines
  rw [tracks.defines_iff version headed regular unnoted, boundaries]
  constructor
  · rintro ⟨function, inStatement, isFunction, opens, isName⟩
    split at opens
    next outside =>
      rcases List.mem_flatMap.mp opens with ⟨owner, isOutermost, isOwn⟩
      have isOpening : function.1 = owner.1 ∧ place = owner.1 ++ [2] := by
        simpa [Element.ownBoundaries] using isOwn
      have isOwner : (function.1, owner.2) ∈ statement.preorder path := by
        rw [isOpening.1]
        exact (Element.mem_outermost.mp isOutermost).1
      have same : function.2 = owner.2 := Element.eq_of_mem_preorder inStatement isOwner
      exact ⟨outside, owner, isOutermost, isOpening.2, same ▸ isName⟩
    next => cases opens
  · rintro ⟨outside, function, isOutermost, rfl, rfl⟩
    rcases Element.mem_outermost.mp isOutermost with ⟨inStatement, isFunction, _⟩
    refine ⟨function, inStatement, isFunction, ?_, rfl⟩
    rw [if_pos outside]
    exact List.mem_flatMap.mpr ⟨function, isOutermost, by simp [Element.ownBoundaries]⟩

/-- The tree of a function with an indented body. -/
def functionTree (name : String) (line : Int) (body : List Element) : Element :=
  .node (.int 262 :: .node [.int 1, .text "def", .int line] :: .node [.int 1, .text name, .int line] ::
    ([.node [.int 263, .node [.int 7, .text "(", .int line], .node [.int 8, .text ")", .int line]],
      .node [.int 11, .text ":", .int line]] ++
    [.node (.int 301 :: .node [.int 4, .text "", .int line] ::
      .node [.int 5, .text "", .int (line + 1)] ::
      (body ++ [.node [.int 6, .text "", .int (line + 1)]]))]))

/-- The tree of a compound statement. -/
def compoundTree (content : Element) : Element :=
  .node [.int 268, .node [.int 293, content]]

/-- The tree of a simple statement that does nothing. -/
def passTree (line : Int) : Element :=
  .node [.int 269, .node [.int 270, .node [.int 275, .node [.int 1, .text "pass", .int line]]],
    .node [.int 4, .text "", .int line]]

/-- The tree of a function `g` inside a function `f`. -/
def nestedStatement : Element :=
  compoundTree (functionTree "f" 1 [compoundTree (functionTree "g" 2 [.node [.int 268, passTree 3]])])

def nestedFunctions : Element :=
  .node [.int 257, nestedStatement, .node [.int 0, .text "", .int 4]]

theorem forall_functions {grammar : Grammar} {tree : Element} {functions : List (Path × Element)}
    {motive : Path × Element → Prop}
    (areFunctions : (tree.preorder []).filter (fun entry => entry.2.isFunction grammar) = functions)
    (each : ∀ entry ∈ functions, motive entry) :
    ∀ entry ∈ tree.preorder [], entry.2.isFunction grammar = true → motive entry := by
  intro entry member isFunction
  apply each
  rw [← areFunctions]
  exact List.mem_filter.mpr ⟨member, isFunction⟩

theorem nestedFunctions_indented : nestedFunctions.Indented .version3 := by
  have functions : (nestedFunctions.preorder []).filter (fun entry => entry.2.isFunction .version3) =
      [([1, 1, 1], functionTree "f" 1
          [compoundTree (functionTree "g" 2 [.node [.int 268, passTree 3]])]),
        ([1, 1, 1, 5, 3, 1, 1], functionTree "g" 2 [.node [.int 268, passTree 3]])] := rfl
  refine ⟨by decide +kernel, forall_functions functions ?_⟩
  simp only [List.forall_mem_cons, List.not_mem_nil, false_imp_iff, implies_true, and_true]
  constructor
  · exact .intro rfl rfl rfl rfl rfl rfl rfl (by simp) (by decide +kernel) (by decide +kernel)
  · exact .intro rfl rfl rfl rfl rfl rfl rfl (by simp) (by decide +kernel) (by decide +kernel)

theorem functions_nest_nestedFunctions :
    nestedFunctions.Indented .version3 ∧ ([1], nestedStatement) ∈ nestedFunctions.preorder [] ∧
      (below {} { indentation := 1 } [1] nestedStatement).fault = none ∧
      State.boundariesAlong
          ((below {} { indentation := 1 } [1] nestedStatement).steps { indentation := 1 }) =
        [.opens [1, 1, 1] [1, 1, 1, 2], .closes [1, 1, 1, 5, 4]] ∧
      (below {} { indentation := 1 } [1] nestedStatement).Defines { indentation := 1 }
        [1, 1, 1, 2] "f" ∧
      ¬ (below {} { indentation := 1 } [1] nestedStatement).Defines { indentation := 1 }
        [1, 1, 1, 5, 3, 1, 1, 2] "g" := by
  have inTree : ([1], nestedStatement) ∈ nestedFunctions.preorder [] :=
    List.mem_cons_of_mem _ List.mem_cons_self
  have regular : State.Regular { indentation := 1 } :=
    ⟨State.regular_empty.onlyNotes, State.regular_empty.honestLine⟩
  have complete : (below {} { indentation := 1 } [1] nestedStatement).fault = none := by
    rw [below_eq_visitEach]
    decide +kernel
  have outermost : nestedStatement.outermost .version3 [1] =
      [([1, 1, 1], functionTree "f" 1
        [compoundTree (functionTree "g" 2 [.node [.int 268, passTree 3]])])] := rfl
  have unnoted : ∀ entry ∈ nestedStatement.preorder [1],
      entry.1 ∉ State.definitions { indentation := 1 } := by
    intro entry _ noted
    cases noted
  rcases functions_nest {} List.mem_cons_self nestedFunctions nestedFunctions_indented [1]
    nestedStatement inTree rfl { indentation := 1 } regular (by decide) (Or.inl rfl) complete with
    ⟨_, _, boundaries, names⟩
  refine ⟨nestedFunctions_indented, inTree, complete, boundaries, ?_, ?_⟩
  · rw [names unnoted]
    exact ⟨rfl, _, List.mem_cons_self, rfl, rfl⟩
  · rw [names unnoted]
    rintro ⟨_, function, isOutermost, isPlace, _⟩
    have isFirst := isOutermost
    rw [outermost, List.mem_singleton] at isFirst
    rw [isFirst] at isPlace
    exact absurd isPlace (by decide)

end Walk

end CrossRef
