import CrossRef.Layout
import CrossRef.Renaming

/-!
# Dumps

A dump shows a tree with the names of its kinds, for reading.
-/

namespace CrossRef.Dump

/-- The text that shows a renamed tree. -/
def textOf (renamed : Renamed Element) : Except Fault String :=
  match renamed.fault with
  | none => .ok (Layout.render renamed.tree)
  | some fault => .error fault

/-- The text that shows a tree of lists. -/
def ofLists (grammar : Grammar) (tree : Element) : Except Fault String :=
  textOf (tree.rename grammar)

/-- A dump, and what is left of the tree. -/
structure Result where
  text : Except Fault String
  left : Element

/-- Dumps a tree. -/
def ofTree (grammar : Grammar) : Element → Result
  | .node elements =>
    let copied := (Element.node elements).renameInner grammar
    ⟨textOf copied.toRenamed, copied.left⟩
  | element => ⟨.error (.noAttribute element.sort "tolist"), element⟩

/-- What a stream receives of a text if it refuses to be written to; that nobody reads it any more is no
fault. -/
def deliver (refusal : Option Storage.Errno) (text : String) : Except Fault String :=
  match refusal with
  | none => .ok text
  | some errno => if errno = .brokenPipe then .ok "" else .error (.storage errno none)

end CrossRef.Dump
