import CrossRef.Indexing

/-!
# Outlines

The outline of a source file is its tree with the names of its kinds, as nested lists.  The kinds are
named in place, in lists only.  Before each element of a list the type of lists is asked for by its name,
which not every version knows.
-/

namespace CrossRef.Outline

open Storage

mutual

/-- Names the kinds in an element of a list, which counts if it is a list too. -/
def nameInner (grammar : Grammar) : Element → Renamed Element
  | .list elements => (nameKind grammar elements).map .list
  | element => ⟨element, none⟩

/-- Names the kind at the front of a list and then those in the elements behind it. -/
def nameKind (grammar : Grammar) : List Element → Renamed (List Element)
  | [] => ⟨[], some ([], .outOfRange "list")⟩
  | kind :: rest =>
    match grammar.nameOf kind with
    | .error fault => ⟨kind :: rest, some ([], fault)⟩
    | .ok name => (nameEach grammar 1 rest).map (.text name :: ·)

/-- Names the kinds in elements from left to right; `position` is the place of the first one. -/
def nameEach (grammar : Grammar) (position : Nat) : List Element → Renamed (List Element)
  | [] => ⟨[], none⟩
  | element :: rest =>
    if grammar.namesListType then
      match nameInner grammar element with
      | ⟨named, none⟩ => (nameEach grammar (position + 1) rest).map (named :: ·)
      | ⟨named, some (place, fault)⟩ => ⟨named :: rest, some (position :: place, fault)⟩
    else ⟨element :: rest, some ([], .noMember "types" "ListType")⟩

end

/-- Names the kinds of a tree whose root is changed in place. -/
def nameKinds (grammar : Grammar) : Element → Renamed Element
  | .list elements => (nameKind grammar elements).map .list
  | tree => tree.refuse grammar

/-- An outline and the texts handed to the reader on the way. -/
structure Result where
  outline : Except Fault Element
  sources : List String := []

/-- The outline of the file with the given name; no name gives an empty outline. -/
def ofFile (grammar : Grammar) (reader : Reader) (disk : Disk) (name : String) : Result :=
  if name.isEmpty then { outline := .ok (.list []) }
  else
    match disk.read name with
    | .error fault => { outline := .error fault }
    | .ok text =>
      { sources := [text]
        outline :=
          match reader text with
          | .error fault => .error fault
          | .ok tree =>
            let named := nameKinds grammar tree.toLists
            match named.fault with
            | none => .ok named.tree
            | some fault => .error fault }

/-- The outline of the file that the last argument names, laid out. -/
def ofArguments (grammar : Grammar) (reader : Reader) (disk : Disk) (arguments : List String) :
    Result × String :=
  match arguments.getLast? with
  | none => ({ outline := .error (.outOfRange "list") }, "")
  | some name =>
    let result := ofFile grammar reader disk name
    match result.outline with
    | .ok outline => (result, Layout.render outline)
    | .error _ => (result, "")

end CrossRef.Outline
