import CrossRef.Step

/-!
# Plans for calls

A primary calls the name it starts with if parentheses follow it, and every attribute that parentheses
follow.
-/

namespace CrossRef

/-- Whether a primary, taken to have the given length, starts with a call of a name. -/
def isNamedCall (grammar : Grammar) (node : Element) (length : Int) : Verdict :=
  match node.kindIs [] grammar.power with
  | .error fault => .error fault
  | .ok false => .error .misshapen
  | .ok true =>
    if length < 3 then .ok false
    else
      Verdict.all
        [node.kindIs [1] grammar.atom,
         node.kindIs [1, 1] Kind.name,
         node.kindIs [2] grammar.trailer,
         node.kindIs [2, 1] Kind.leftParenthesis,
         node.kindIs [2, -1] Kind.rightParenthesis]

/-- Whether an attribute at a position of a primary, taken to have the given length, is called. -/
def isAttributeCall (grammar : Grammar) (node : Element) (position length : Int) : Verdict :=
  match node.kindIs [] grammar.power with
  | .error fault => .error fault
  | .ok false => .error .misshapen
  | .ok true =>
    if position < length - 1 then
      Verdict.all
        [node.kindIs [position] grammar.trailer,
         node.kindIs [position, 1] Kind.dot,
         node.kindIs [position, 2] Kind.name,
         node.kindIs [position + 1] grammar.trailer,
         node.kindIs [position + 1, 1] Kind.leftParenthesis,
         node.kindIs [position + 1, -1] Kind.rightParenthesis]
    else .error .misshapen

namespace Plan

/-- A primary marks the name and the attributes that it calls. -/
def calls (grammar : Grammar) (path : Path) (node : Element) : Plan :=
  let length := node.elements.length
  branch (isNamedCall grammar node length) (markAt path node [1, 1] .call) [] ++
    (List.range' 1 (length - 2)).flatMap fun (position : Nat) =>
      branch (isAttributeCall grammar node position length) (markAt path node [position, 2] .call) []

end Plan

end CrossRef
