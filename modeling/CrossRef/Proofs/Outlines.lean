import CrossRef.Outline
import CrossRef.Proofs.NamedKinds

/-!
# Outlines and dumps

Outlines and dumps name the kinds of a tree by two procedures.  That of dumps goes into lists and nodes,
and copies the nodes.  That of outlines goes into lists only, and asks for the type of lists by its name
before it looks at an element.

Where this name is known both procedures leave the same of a tree whose sequences are lists, also where
they stop on the way, and they stop at the same place with the same fault.  The outline of a file then
shows what a dump of its tree shows.  Where the name is not known, an outline comes no further than the
kind of the root, and the procedures agree only if there is nothing to be done behind it.
-/

namespace CrossRef

namespace Element

/-! ## Trees of lists -/

mutual

/-- Whether the sequences of a tree are lists.  What stands for a kind is no part of the tree and may be
anything. -/
def onlyLists : Element → Bool
  | .list elements => onlyListsBehind elements
  | .node _ => false
  | _ => true

def onlyListsBehind : List Element → Bool
  | [] => true
  | _ :: rest => allOnlyLists rest

def allOnlyLists : List Element → Bool
  | [] => true
  | element :: rest => element.onlyLists && allOnlyLists rest

end

mutual

theorem onlyLists_toLists (element : Element) : element.toLists.onlyLists = true := by
  cases element with
  | node elements | list elements =>
      cases elements with
      | nil => rfl
      | cons kind rest => exact allOnlyLists_allToLists rest
  | null | bool value | int value | float value | text value => rfl

theorem allOnlyLists_allToLists (elements : List Element) :
    allOnlyLists (allToLists elements) = true := by
  cases elements with
  | nil => rfl
  | cons element rest =>
      rw [allToLists, allOnlyLists, onlyLists_toLists element, allOnlyLists_allToLists rest, Bool.and_true]

end

end Element

namespace Outline

open Element

variable {grammar : Grammar}

/-! ## The two procedures -/

mutual

/-- In a tree of lists both procedures take the same steps, if the type of lists has its name. -/
theorem nameInner_of_onlyLists (known : grammar.namesListType = true) (element : Element)
    (lists : element.onlyLists = true) :
    nameInner grammar element = (renameInner grammar element).toRenamed := by
  cases element with
  | list elements => rw [nameInner, nameKind_of_onlyLists known elements lists, renameInner]
  | node elements => cases lists
  | null | bool value | int value | float value | text value => rfl

theorem nameKind_of_onlyLists (known : grammar.namesListType = true) (elements : List Element)
    (lists : onlyListsBehind elements = true) :
    nameKind grammar elements = (renameKind grammar elements).toRenamed := by
  cases elements with
  | nil => rfl
  | cons kind rest =>
      rw [nameKind, renameKind, nameEach_of_onlyLists known 1 rest lists]
      cases grammar.nameOf kind with
      | error fault => rfl
      | ok name => rfl

theorem nameEach_of_onlyLists (known : grammar.namesListType = true) (position : Nat)
    (elements : List Element) (lists : allOnlyLists elements = true) :
    nameEach grammar position elements = (renameEach grammar position elements).toRenamed := by
  cases elements with
  | nil => rfl
  | cons element rest =>
      rw [allOnlyLists, Bool.and_eq_true] at lists
      rw [nameEach, if_pos known, renameEach, nameInner_of_onlyLists known element lists.1]
      rcases renameInner grammar element with ⟨⟨renamed, _ | ⟨place, fault⟩⟩, left⟩
      · simp only [nameEach_of_onlyLists known (position + 1) rest lists.2, Copied.behind]
      · rfl

end

theorem nameKinds_of_known (known : grammar.namesListType = true) {elements : List Element}
    (lists : (list elements).onlyLists = true) :
    nameKinds grammar (.list elements) = (list elements).rename grammar := by
  rw [nameKinds, rename, nameKind_of_onlyLists known elements lists]

/-- Behind the kind at the front nothing is done without the name of the type of lists. -/
theorem nameKinds_of_unknown (unknown : grammar.namesListType = false) {kind element : Element}
    {rest : List Element} {name : String} (named : grammar.nameOf kind = .ok name) :
    nameKinds grammar (.list (kind :: element :: rest)) =
      ⟨.list (.text name :: element :: rest), some ([], .noMember "types" "ListType")⟩ := by
  simp only [nameKinds, nameKind, named, nameEach, unknown, Bool.false_eq_true, if_false]
  rfl

/-- Where there is nothing to be done behind the kind at the front, it does not matter what is known. -/
theorem nameKinds_of_front {elements : List Element}
    (front : elements.length < 2 ∨ (kindFault? grammar elements).isSome = true) :
    nameKinds grammar (.list elements) = (list elements).rename grammar := by
  rw [nameKinds, rename]
  cases elements with
  | nil => rfl
  | cons kind rest =>
      rw [nameKind, renameKind]
      rw [kindFault?] at front
      cases named : grammar.nameOf kind with
      | error fault => rfl
      | ok name =>
          rw [named] at front
          cases rest with
          | nil => rfl
          | cons element rest =>
              simp only [List.length_cons, Option.isSome_none, Bool.false_eq_true, or_false] at front
              omega

/-- An outline and a dump leave the same of a tree of lists, whatever stands for its kinds, exactly if the
type of lists has its name or there is nothing to be done behind the kind of the root.  They then come to the
end, or stop with the same fault at the same place, where the tree has a sequence whose kind leads to that
fault.  Otherwise the outline stops at the root, whose kind it has named. -/
theorem nameKinds_eq_rename_iff (grammar : Grammar) {elements : List Element}
    (lists : (list elements).onlyLists = true) :
    let tree := list elements
    (nameKinds grammar tree = tree.rename grammar ↔
      grammar.namesListType = true ∨ elements.length < 2 ∨
        (kindFault? grammar elements).isSome = true) ∧
    (∀ place fault, (tree.rename grammar).stop = some (place, fault) →
      ∃ given, tree.Inside place given ∧ given.isPlain = false ∧
        kindFault? grammar given.elements = some fault) ∧
    (grammar.namesListType = false → ∀ kind element rest name, elements = kind :: element :: rest →
      grammar.nameOf kind = .ok name →
      nameKinds grammar tree =
        ⟨.list (.text name :: element :: rest), some ([], .noMember "types" "ListType")⟩) := by
  intro tree
  refine ⟨⟨?_, ?_⟩, fun _ _ => rename_stop grammar, ?_⟩
  · intro same
    cases known : grammar.namesListType with
    | true => exact Or.inl rfl
    | false =>
        right
        cases nameable : kindFault? grammar elements with
        | some fault => exact Or.inr rfl
        | none =>
            rcases kindFault?_eq_none nameable with ⟨kind, rest, name, rfl, named⟩
            cases rest with
            | nil => exact Or.inl Nat.one_lt_two
            | cons element rest =>
                -- A renaming never stops at a root whose kind it has named.
                rw [nameKinds_of_unknown known named] at same
                rcases rename_stop grammar (congrArg Renamed.stop same).symm with ⟨given, inside, _, unnamed⟩
                cases inside
                rw [elements, nameable] at unnamed
                cases unnamed
  · rintro (known | front)
    · exact nameKinds_of_known known lists
    · exact nameKinds_of_front front
  · rintro unknown kind element rest name rfl named
    exact nameKinds_of_unknown unknown named

/-- A tree of lists in which a node that cannot be a key stands for a kind. -/
def unhashableKind : List Element :=
  [.int 257, .list [.bool true, .text "x", .int 1],
    .list [.int 4, .list [.node [.list []], .text "", .null]], .list [.int 1]]

theorem nameKinds_eq_rename_iff_unhashableKind :
    let tree := list unhashableKind
    tree.onlyLists = true ∧
      nameKinds .version27 tree = tree.rename .version27 ∧
      (tree.rename .version27).stop = some ([2, 1], .unhashable "list") ∧
      nameKinds .version3 tree ≠ tree.rename .version3 := by
  have lists : (list unhashableKind).onlyLists = true := rfl
  refine ⟨lists, (nameKinds_eq_rename_iff .version27 lists).1.mpr (Or.inl rfl), rfl, ?_⟩
  intro same
  rcases (nameKinds_eq_rename_iff .version3 lists).1.mp same with known | short | unnamed
  · cases known
  · exact absurd short (by decide)
  · cases unnamed

/-- Version 3 has no name for the type of lists, so an outline stops where a dump goes on. -/
theorem nameKinds_ne_rename :
    (list [.int 4, .list [.int 1]]).onlyLists = true ∧
      nameKinds .version3 (.list [.int 4, .list [.int 1]]) =
        ⟨.list [.text "NEWLINE", .list [.int 1]], some ([], .noMember "types" "ListType")⟩ ∧
      (list [.int 4, .list [.int 1]]).rename .version3 =
        ⟨.list [.text "NEWLINE", .list [.text "NAME"]], none⟩ :=
  ⟨rfl, rfl, rfl⟩

/-- Nodes are what the two procedures treat differently where the name is known. -/
example :
    nameKinds .version27 (.list [.int 4, .node [.int 1]]) =
        ⟨.list [.text "NEWLINE", .node [.int 1]], none⟩ ∧
      (list [.int 4, .node [.int 1]]).rename .version27 =
        ⟨.list [.text "NEWLINE", .list [.text "NAME"]], none⟩ :=
  ⟨rfl, rfl⟩

/-! ## The outline of a file -/

theorem nameKinds_toLists (known : grammar.namesListType = true) (tree : Element) :
    nameKinds grammar tree.toLists = tree.toLists.rename grammar := by
  have lists := onlyLists_toLists tree
  cases tree with
  | node elements | list elements => exact nameKinds_of_known known lists
  | null | bool value | int value | float value | text value => rfl

/-- The outline of a file, laid out, is what a dump of its tree shows. -/
theorem render_ofFile (known : grammar.namesListType = true) {reader : Reader} {disk : Storage.Disk}
    {name text : String} {tree : Element} (isNamed : name.isEmpty = false)
    (isText : disk.read name = .ok text) (isTree : reader text = .ok tree) :
    (ofFile grammar reader disk name).outline.map Layout.render = Dump.ofLists grammar tree.toLists := by
  rw [Dump.ofLists, Dump.textOf, ← nameKinds_toLists known]
  simp only [ofFile, isNamed, isText, isTree, Bool.false_eq_true, if_false]
  cases (nameKinds grammar tree.toLists).fault with
  | none => rfl
  | some fault => rfl

/-- Without the name of the type of lists no file with anything in it has an outline. -/
theorem ofFile_of_unknown (unknown : grammar.namesListType = false) {reader : Reader}
    {disk : Storage.Disk} {name text kindName : String} {kind element : Element} {rest : List Element}
    (isNamed : name.isEmpty = false) (isText : disk.read name = .ok text)
    (isTree : reader text = .ok (.node (kind :: element :: rest)))
    (hasName : grammar.nameOf kind.toLists = .ok kindName) :
    (ofFile grammar reader disk name).outline = .error (.noMember "types" "ListType") := by
  have stops : nameKinds grammar (.list (kind.toLists :: element.toLists :: allToLists rest)) = _ :=
    nameKinds_of_unknown unknown hasName
  simp only [ofFile, isNamed, isText, isTree, toLists, allToLists, Bool.false_eq_true, if_false]
  rw [stops]
  rfl

end Outline

end CrossRef
