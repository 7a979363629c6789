import CrossRef.Fault
import CrossRef.Number.Literal

/-!
# Looking into elements

Positions, lengths, numbers and kinds of elements whose sort is not known beforehand.  A position
may count from the end, with −1 for the last element; a text is a sequence of its characters.
-/

namespace CrossRef.Element

/-- The place in a sequence of the given length that a position means. -/
def place? (length : Nat) (position : Int) : Option Nat :=
  let offset := if position < 0 then position + length else position
  if 0 ≤ offset && offset < length then some offset.toNat else none

/-- The entry of a list at a position that may count from the end. -/
def pick? {Entry : Type} (entries : List Entry) (position : Int) : Option Entry :=
  (place? entries.length position).bind (entries[·]?)

/-- The element at a position. -/
def entry (element : Element) (position : Int) : Except Fault Element :=
  match element with
  | .node elements | .list elements =>
    match pick? elements position with
    | some found => .ok found
    | none => .error (.outOfRange element.sort)
  | .text value =>
    match pick? value.toList position with
    | some char => .ok (.text (String.singleton char))
    | none => .error (.outOfRange element.sort)
  | _ => .error (.notSubscriptable element.sort)

/-- The element reached by following some positions one after the other. -/
def follow (element : Element) : List Int → Except Fault Element
  | [] => .ok element
  | position :: rest =>
    match element.entry position with
    | .ok next => next.follow rest
    | .error fault => .error fault

/-- The first element of a node, which is its kind. -/
def kind (element : Element) : Except Fault Element :=
  element.entry 0

/-- The number of elements of a sequence. -/
def length : Element → Except Fault Nat
  | .node elements | .list elements => .ok elements.length
  | .text value => .ok value.length
  | element => .error (.unsized element.sort)

/-- Whether an element is at least the given number. -/
def atLeast (element : Element) (number : Nat) : Except Fault Bool :=
  match element with
  | .bool value => .ok (number ≤ value.toNat)
  | .int value => .ok ((number : Int) ≤ value)
  | .float value => .ok (value.atLeast number)
  | _ => .error (.unordered element.sort)

/-- The integer that an element stands for: fractions are cut off and texts are read. -/
def toInteger : Element → Except Fault Int
  | .bool value => .ok value.toNat
  | .int value => .ok value
  | .float value =>
    if value.isNaN then .error .notANumber
    else if value.isFinite then .ok value.truncate
    else .error .infiniteNumber
  | .text value =>
    match Number.readInteger value with
    | some integer => .ok integer
    | none => .error (.badInteger value)
  | element => .error (.notNumeric element.sort)

mutual

/-- Fails when an element cannot be a key: a list cannot, and no node that holds one. -/
def hashable : Element → Except Fault Unit
  | .list _ => .error (.unhashable "list")
  | .node elements => allHashable elements
  | _ => .ok ()

/-- Fails at the first of some elements that cannot be a key. -/
def allHashable : List Element → Except Fault Unit
  | [] => .ok ()
  | element :: rest =>
    match element.hashable with
    | .ok () => allHashable rest
    | .error fault => .error fault

end

/-- The entries of a sequence from a position on, each with its position. -/
def numbered (element : Element) (start : Nat) : List (Nat × Element) :=
  (element.elements.zipIdx.drop start).map fun (child, position) => (position, child)

end CrossRef.Element
