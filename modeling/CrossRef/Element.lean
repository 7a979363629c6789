import CrossRef.Number.Double

/-!
# Elements of syntax trees

A syntax tree arrives as loose data: a node is a sequence whose first element is its kind, followed
by its children or, for a terminal, by its text and its line number.  Nothing is checked on arrival,
so every position may hold an element of any sort, and the sort decides how it can be used.
-/

namespace CrossRef

/-- An element of a syntax tree. -/
inductive Element where
  | null
  | bool (value : Bool)
  | int (value : Int)
  | float (value : Double)
  | text (value : String)
  /-- A node of the tree, which a walk descends into. -/
  | node (elements : List Element)
  /-- A sequence that can be changed in place, which a walk passes over. -/
  | list (elements : List Element)
  deriving Repr, Inhabited

/-- The place of an element in a tree: the positions that lead to it from the root. -/
abbrev Path := List Nat

namespace Element

/-- The name of an element's sort in messages. -/
def sort : Element → String
  | .null => "NoneType"
  | .bool _ => "bool"
  | .int _ => "int"
  | .float _ => "float"
  | .text _ => "str"
  | .node _ => "tuple"
  | .list _ => "list"

/-- The elements that a sequence holds. -/
def elements : Element → List Element
  | .node elements | .list elements => elements
  | _ => []

@[simp]
theorem elements_node (elements : List Element) : (node elements).elements = elements := rfl

@[simp]
theorem elements_list (elements : List Element) : (list elements).elements = elements := rfl

/-- Whether an element counts as present: null, false, zero and whatever is empty do not. -/
def isPresent : Element → Bool
  | .null => false
  | .bool value => value
  | .int value => value ≠ 0
  | .float value => !value.isZero
  | .text value => !value.isEmpty
  | .node elements | .list elements => !elements.isEmpty

/-- Whether an element equals a number; a truth value counts as zero or one. -/
def isNumber (number : Nat) : Element → Bool
  | .bool value => value.toNat = number
  | .int value => value = number
  | .float value => value.equals number
  | _ => false

/-- Whether an element equals one of some numbers. -/
def isNumberIn (numbers : List Nat) (element : Element) : Bool :=
  numbers.any (element.isNumber ·)

/-- Whether an element is the given text. -/
def isText (text : String) : Element → Bool
  | .text value => value = text
  | _ => false

/-- The nodes among some elements, each with its path; `position` is the place of the first element. -/
def nodesFrom (path : Path) (position : Nat) : List Element → List (Path × Element)
  | [] => []
  | .node elements :: rest =>
    (path ++ [position], .node elements) :: nodesFrom path (position + 1) rest
  | _ :: rest => nodesFrom path (position + 1) rest

/-- The children of a sequence that a walk descends into, with their paths: the nodes behind the kind. -/
def children (path : Path) (element : Element) : List (Path × Element) :=
  nodesFrom path 1 element.elements.tail

end Element

end CrossRef
