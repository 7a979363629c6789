import CrossRef.Step

/-!
# Plans for imports

Every terminal of the dotted name of an imported module is marked, so that the parts grow together to
one symbol.
-/

namespace CrossRef.Plan

/-- The module of a relative or absolute import stands behind any number of dots. -/
def moduleName (grammar : Grammar) (path : Path) (sort : String) : List (Nat × Element) → Plan
  | [] => [.fail (.outOfRange sort)]
  | (position, child) :: rest =>
    match child.kind with
    | .error fault => [.fail fault]
    | .ok kind =>
      if kind.isNumberIn grammar.relativeDots then moduleName grammar path sort rest
      else if kind.isNumber grammar.dottedName then markAll (path ++ [position]) child .inclusion
      else []

/-- An import of names from a module marks the module. -/
def importFrom (grammar : Grammar) (path : Path) (node : Element) : Plan :=
  moduleName grammar path node.sort (node.numbered 2)

/-- A list of imported modules tells how many dotted names belong to the statement. -/
def importedNames (grammar : Grammar) (state : State) (node : Element) : Plan :=
  if state.importing then [.countImports (grammar.importHalves node.elements.length)] else []

/-- A dotted name is a module as long as the import statement has modules left. -/
def dottedName (state : State) (path : Path) (node : Element) : Plan :=
  if state.importing then
    if 2 ≤ state.importHalves.getD 0 then markAll path node .inclusion ++ [.finishImport]
    else [.fail .misshapen]
  else []

end CrossRef.Plan
