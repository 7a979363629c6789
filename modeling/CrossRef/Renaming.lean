import CrossRef.Grammar

/-!
# Naming the kinds of a tree

For reading, the kinds of a tree are replaced by their names, from the root downwards and from left to
right.  A kind without a name stops the renaming; what has been renamed by then stays so.  Lists are
changed in place.  A node is copied to a list first, so of a node that was given only the lists in it
change.
-/

namespace CrossRef

/-- A tree after a renaming, as far as it came, and where and why it stopped if it did. -/
structure Renamed (Tree : Type) where
  tree : Tree
  stop : Option (Path × Fault) := none
  deriving Repr

namespace Renamed

def fault {Tree : Type} (renamed : Renamed Tree) : Option Fault :=
  renamed.stop.map (·.2)

/-- The same outcome for a tree built around this one. -/
def map {Tree Outer : Type} (renamed : Renamed Tree) (wrap : Tree → Outer) : Renamed Outer :=
  ⟨wrap renamed.tree, renamed.stop⟩

end Renamed

/-- A renamed copy, and what is left of the tree that was given. -/
structure Copied (Tree : Type) extends Renamed Tree where
  left : Tree
  deriving Repr

/-- The same outcome with one more element in front. -/
def Copied.behind (copied : Copied (List Element)) (renamed left : Element) : Copied (List Element) :=
  ⟨copied.map (renamed :: ·), left :: copied.left⟩

@[simp]
theorem Copied.fault_behind (copied : Copied (List Element)) (renamed left : Element) :
    (copied.behind renamed left).fault = copied.fault := rfl

@[simp]
theorem Copied.tree_behind (copied : Copied (List Element)) (renamed left : Element) :
    (copied.behind renamed left).tree = renamed :: copied.tree := rfl

namespace Element

mutual

/-- Renames an element of a sequence. -/
def renameInner (grammar : Grammar) : Element → Copied Element
  | .list elements =>
    let renamed := (renameKind grammar elements).map .list
    ⟨renamed, renamed.tree⟩
  | .node elements =>
    let copied := renameKind grammar elements
    ⟨copied.map .list, .node copied.left⟩
  | element => ⟨⟨element, none⟩, element⟩

/-- Renames the kind at the front of some elements and then the elements behind it. -/
def renameKind (grammar : Grammar) : List Element → Copied (List Element)
  | [] => ⟨⟨[], some ([], .outOfRange "list")⟩, []⟩
  | kind :: rest =>
    match grammar.nameOf kind with
    | .error fault => ⟨⟨kind :: rest, some ([], fault)⟩, kind :: rest⟩
    | .ok name => (renameEach grammar 1 rest).behind (.text name) kind

/-- Renames elements from left to right; `position` is the place of the first one. -/
def renameEach (grammar : Grammar) (position : Nat) : List Element → Copied (List Element)
  | [] => ⟨⟨[], none⟩, []⟩
  | element :: rest =>
    match renameInner grammar element with
    | ⟨⟨renamed, none⟩, left⟩ => (renameEach grammar (position + 1) rest).behind renamed left
    | ⟨⟨renamed, some (place, fault)⟩, left⟩ =>
      ⟨⟨renamed :: rest, some (position :: place, fault)⟩, left :: rest⟩

end

/-- What comes of a tree whose root is to be changed in place and is no list. -/
def refuse (grammar : Grammar) (tree : Element) : Renamed Element :=
  match tree.kind with
  | .error fault => ⟨tree, some ([], fault)⟩
  | .ok kind =>
    match grammar.nameOf kind with
    | .error fault => ⟨tree, some ([], fault)⟩
    | .ok _ => ⟨tree, some ([], .unchangeable tree.sort)⟩

/-- Renames a tree whose root is changed in place. -/
def rename (grammar : Grammar) : Element → Renamed Element
  | .list elements => (renameKind grammar elements).map .list
  | tree => tree.refuse grammar

mutual

/-- A tree with its nodes turned into lists. -/
def toLists : Element → Element
  | .node elements | .list elements => .list (allToLists elements)
  | element => element

/-- Some trees with their nodes turned into lists. -/
def allToLists : List Element → List Element
  | [] => []
  | element :: rest => element.toLists :: allToLists rest

end

end Element

end CrossRef
