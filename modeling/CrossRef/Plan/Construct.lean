import CrossRef.Plan.Assignment
import CrossRef.Plan.Call
import CrossRef.Plan.Declaration
import CrossRef.Plan.Import

/-!
# Plans for constructs

Which constructs a walk looks at, and what each of them makes it do.
-/

namespace CrossRef

/-- The constructs that a walk looks at. -/
inductive Construct where
  | globalStatement
  | functionDefinition
  | decorated
  | importFrom
  | importName
  | importedNames
  | dottedName
  | expressionStatement
  | expression
  | classDefinition
  | power
  | other
  deriving DecidableEq, Repr

/-- The construct that a kind stands for. -/
def Grammar.constructOf (grammar : Grammar) (kind : Element) : Construct :=
  if kind.isNumber grammar.globalStatement then .globalStatement
  else if kind.isNumber grammar.functionDefinition then .functionDefinition
  else if kind.isNumber grammar.decorated then .decorated
  else if kind.isNumber grammar.importFrom then .importFrom
  else if kind.isNumber grammar.importName then .importName
  else if kind.isNumber grammar.importedNames then .importedNames
  else if kind.isNumber grammar.dottedName then .dottedName
  else if kind.isNumber grammar.expressionStatement then .expressionStatement
  else if kind.isNumberIn grammar.targets then .expression
  else if kind.isNumber grammar.classDefinition then .classDefinition
  else if kind.isNumber grammar.power then .power
  else .other

namespace Plan

/-- What a construct of a known sort makes a walk do. -/
def ofConstruct (grammar : Grammar) (state : State) (path : Path) (node : Element) : Construct → Plan
  | .globalStatement => globalStatement path node
  | .functionDefinition => if state.functionLevel = -1 then functionDefinition grammar path node else []
  | .decorated => decorated grammar path node
  | .importFrom => importFrom grammar path node
  | .importName => [.beginImport]
  | .importedNames => importedNames grammar state node
  | .dottedName => dottedName state path node
  | .expressionStatement => expressionStatement grammar path node
  | .expression => expression state path
  | .classDefinition => classDefinition path node
  | .power =>
    (if state.assigning then .settle :: target grammar path node else []) ++ calls grammar path node
  | .other => []

/-- What a construct makes a walk do. -/
def construct (grammar : Grammar) (state : State) (path : Path) (node : Element) : Plan :=
  match node.kind with
  | .error fault => [.fail fault]
  | .ok kind => ofConstruct grammar state path node (grammar.constructOf kind)

end Plan

end CrossRef
