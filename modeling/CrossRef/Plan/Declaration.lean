import CrossRef.Step

/-!
# Plans for declarations

Global statements, function and class definitions and the decorators of functions mark the names they
declare or call.
-/

namespace CrossRef.Plan

/-- A global statement marks its names, which stand at the even positions from the second on. -/
def globalStatement (path : Path) (node : Element) : Plan :=
  ((node.numbered 2).filter fun (position, _) => position % 2 = 0).flatMap fun (position, child) =>
    [.demand (child.kindIs [] Kind.name), .mark (path ++ [position]) child .globalName]

/-- The name of a function stands behind the word `def` at the given position. -/
def functionName (path : Path) (node : Element) (position : Int) : Plan :=
  .demand (Verdict.all
      [node.kindIs [position] Kind.name, node.asks [position, 1] (·.isText "def")])
    :: markAt path node [position + 1] .definition

/-- An outermost function definition marks its name; decorators may stand in front. -/
def functionDefinition (grammar : Grammar) (path : Path) (node : Element) : Plan :=
  .openFunction ::
    branch (node.kindIs [1] grammar.decorators) (functionName path node 2) (functionName path node 1)

/-- A class definition marks its name. -/
def classDefinition (path : Path) (node : Element) : Plan :=
  .demand (Verdict.all [node.kindIs [1] Kind.name, node.asks [1, 1] (·.isText "class")])
    :: markAt path node [2] .classDefinition

/-- The decorators that call nothing of interest. -/
def plainDecorators : List String := ["property", "classmethod"]

/-- The name of a decorator: the last part of a dotted name is called, and so is a simple name unless it
is a plain decorator. -/
def decoratorName (path : Path) (dotted : Element) : Plan :=
  match dotted.length with
  | .error fault => [.fail fault]
  | .ok length =>
    if length < 2 then [.fail .misshapen]
    else if 2 < length then markAt path dotted [-1] .call
    else
      .demand (dotted.kindIs [-1] Kind.name) ::
        branch (dotted.asks [-1, 1] fun text => plainDecorators.any (text.isText ·))
          [] (markAt path dotted [-1] .call)

/-- One decorator calls the name behind its sign. -/
def decorator (grammar : Grammar) (path : Path) (node : Element) : Plan :=
  [.demand (node.kindIs [] grammar.decorator),
   .demand (node.kindIs [1] Kind.atSign),
   .demand (node.kindIs [2] grammar.dottedName)] ++
  match node.entry 2 with
  | .error fault => [.fail fault]
  | .ok dotted => decoratorName (path ++ [2]) dotted

/-- A decorated function calls its decorators; a decorated class does not. -/
def decorated (grammar : Grammar) (path : Path) (node : Element) : Plan :=
  branch (Verdict.all [node.kindIs [1] grammar.decorators, node.kindIs [2] grammar.functionDefinition])
    (match node.entry 1 with
      | .error fault => [.fail fault]
      | .ok list =>
        (list.numbered 1).flatMap fun (position, child) => decorator grammar (path ++ [1, position]) child)
    []

end CrossRef.Plan
