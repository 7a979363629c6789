import CrossRef.Element.Access

/-!
# Verdicts

A question about a tree that may have no answer, because the tree has nothing at the place asked
about.  Of several questions joined together, those behind the first one that fails are not asked.
-/

namespace CrossRef

/-- The answer to a question about a tree, or the fault that it ran into. -/
abbrev Verdict := Except Fault Bool

namespace Verdict

/-- Whether both hold; the second is asked only if the first holds. -/
def and (first second : Verdict) : Verdict :=
  match first with
  | .ok true => second
  | other => other

/-- Whether all hold, asked in order. -/
def all : List Verdict → Verdict
  | [] => .ok true
  | first :: rest => first.and (all rest)

end Verdict

namespace Element

/-- A question about the element that a route leads to. -/
def asks (element : Element) (route : List Int) (question : Element → Bool) : Verdict :=
  match element.follow route with
  | .ok found => .ok (question found)
  | .error fault => .error fault

/-- Whether a route leads to a node of the given kind. -/
def kindIs (element : Element) (route : List Int) (kind : Nat) : Verdict :=
  element.asks (route ++ [0]) (·.isNumber kind)

/-- Whether a route leads to a node of one of the given kinds. -/
def kindIn (element : Element) (route : List Int) (kinds : List Nat) : Verdict :=
  element.asks (route ++ [0]) (·.isNumberIn kinds)

/-- A question about the length of what a route leads to. -/
def lengthIs (element : Element) (route : List Int) (question : Nat → Bool) : Verdict :=
  match element.follow route with
  | .error fault => .error fault
  | .ok found =>
    match found.length with
    | .ok length => .ok (question length)
    | .error fault => .error fault

/-- The path and the element that a route leads to. -/
def locate (path : Path) (element : Element) : List Int → Except Fault (Path × Element)
  | [] => .ok (path, element)
  | position :: rest =>
    match element.entry position with
    | .error fault => .error fault
    | .ok next =>
      locate (path ++ [((place? element.elements.length position).getD 0)]) next rest

end Element

end CrossRef
