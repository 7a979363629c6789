import CrossRef.Step

/-!
# Plans for assignments

An assignment statement notes the expressions on its left; inside each of them the first primary is
what is assigned to, and it either marks a name or is a list of further targets in brackets.
-/

namespace CrossRef.Plan

/-- Awaits the members of a list up to the first that is neither a comma nor of one of the given
kinds. -/
def awaitMembers (kinds : List Nat) (path : Path) : List (Nat × Element) → Plan
  | [] => []
  | (position, child) :: rest =>
    match child.kind with
    | .error fault => [.fail fault]
    | .ok kind =>
      if kind.isNumber Kind.comma then awaitMembers kinds path rest
      else if kind.isNumberIn kinds then .await (path ++ [position]) :: awaitMembers kinds path rest
      else []

/-- Awaits the targets of a list on the left of an assignment. -/
def targetList (grammar : Grammar) (path : Path) (node : Element) : Plan :=
  .demand (node.kindIs [] grammar.targetList) ::
    awaitMembers grammar.targets path (node.numbered 1)

/-- Awaits the targets of the further lists of a chain of assignments. -/
def targetChain (grammar : Grammar) (path : Path) : List (Nat × Element) → Plan
  | [] => []
  | (position, child) :: rest =>
    match child.kind with
    | .error fault => [.fail fault]
    | .ok kind =>
      if kind.isNumber Kind.equal then targetChain grammar path rest
      else if kind.isNumber grammar.targetList then
        targetList grammar (path ++ [position]) child ++ targetChain grammar path rest
      else []

/-- The target of an assignment that also reads it must be a test. -/
def augmentedTarget (grammar : Grammar) (path : Path) (node : Element) : Plan :=
  match node.follow [1, 1, 0] with
  | .error fault => [.fail fault]
  | .ok kind =>
    if kind.isNumber grammar.test then [.await (path ++ [1, 1])]
    else
      match grammar.nameOf kind with
      | .ok name => [.fail (.notTest name)]
      | .error fault => [.fail fault]

/-- An expression statement with a list on its left and an operator is an assignment. -/
def expressionStatement (grammar : Grammar) (path : Path) (node : Element) : Plan :=
  if node.elements.length < 4 then []
  else
    .demand (node.kindIs [1] grammar.targetList) ::
      branch
        (Verdict.all
          [node.kindIs [2] grammar.augmentedAssignment,
           node.kindIn [3] [grammar.testList, grammar.yieldExpression]])
        (augmentedTarget grammar path node)
        (branch (node.kindIs [2] Kind.equal)
          (match node.entry 1 with
            | .error fault => [.fail fault]
            | .ok first =>
              targetList grammar (path ++ [1]) first ++
                targetChain grammar path (node.numbered 3).dropLast)
          [])

/-- An awaited expression leads to what is assigned to. -/
def expression (state : State) (path : Path) : Plan :=
  if state.awaited.contains path then [.arrive path] else []

/-- A primary that is a name and nothing else, or a list of targets in brackets. -/
def bareTarget (grammar : Grammar) (path : Path) (node : Element) : Plan :=
  branch (Verdict.all [node.lengthIs [1] (· = 2), node.kindIs [1, 1] Kind.name])
    (markAt path node [1, 1] .assignment)
    (branch
      (Verdict.all
        [node.lengthIs [1] (· = 4),
         node.kindIn [1, 1] [Kind.leftParenthesis, Kind.leftBracket],
         node.kindIn [1, 2] grammar.bracketed,
         node.kindIn [1, 3] [Kind.rightParenthesis, Kind.rightBracket]])
      (match node.follow [1, 2] with
        | .error fault => [.fail fault]
        | .ok members => awaitMembers [grammar.test] (path ++ [1, 2]) (members.numbered 1))
      [])

/-- Whether a primary is a name with one subscript. -/
def isSubscriptedName (grammar : Grammar) (node : Element) : Verdict :=
  Verdict.all
    [.ok (node.elements.length = 3),
     node.kindIs [1] grammar.atom,
     node.lengthIs [1] (· = 2),
     node.kindIs [1, 1] Kind.name,
     node.lengthIs [2] (4 ≤ ·),
     node.kindIs [2] grammar.trailer,
     node.kindIs [2, 1] Kind.leftBracket,
     node.kindIs [2, -1] Kind.rightBracket]

/-- Whether the trailer at a position names an attribute. -/
def isAttribute (grammar : Grammar) (node : Element) (position : Int) : Verdict :=
  Verdict.all
    [node.lengthIs [position] (· = 3),
     node.kindIs [position] grammar.trailer,
     node.kindIs [position, 1] Kind.dot,
     node.kindIs [position, 2] Kind.name]

/-- Whether the last trailer is a subscript. -/
def endsInSubscript (grammar : Grammar) (node : Element) : Verdict :=
  Verdict.all
    [node.lengthIs [-1] (4 ≤ ·),
     node.kindIs [-1] grammar.trailer,
     node.kindIs [-1, 1] Kind.leftBracket,
     node.kindIs [-1, -1] Kind.rightBracket]

/-- A primary that is assigned to marks its name, the attribute it ends in, or the attribute whose
subscript it ends in. -/
def target (grammar : Grammar) (path : Path) (node : Element) : Plan :=
  let length := node.elements.length
  branch (Verdict.all [.ok (length = 2), node.kindIs [1] grammar.atom])
    (bareTarget grammar path node)
    (branch (isSubscriptedName grammar node)
      (markAt path node [1, 1] .assignment)
      (branch (Verdict.all [.ok (3 ≤ length), isAttribute grammar node (-1)])
        (markAt path node [-1, 2] .assignment)
        (branch
          (Verdict.all
            [.ok (4 ≤ length), isAttribute grammar node (-2), endsInSubscript grammar node])
          (markAt path node [-2, 2] .assignment)
          [])))

end CrossRef.Plan
