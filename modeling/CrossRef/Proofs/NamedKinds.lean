import CrossRef.Indexing
import CrossRef.Proofs.Counterparts
import CrossRef.Proofs.Lookahead
import CrossRef.Proofs.PendingNotes

/-!
# Names for kinds

A renaming stops at a sequence of the given tree whose kind has no name.  If all kinds are numbers it fails
at the first one, in the order of reading, that the table of names does not have.  If the table has all of
them, it gives the tree of lists of the same shape in which the name of each kind stands in its place.  No
two kinds share a name, so the tree can be had back, up to its nodes having become lists.

A renaming copies a node before it writes to it, and writes to a list in place.  So what a dump changes of
the tree that it is given are the lists in it, and a tree without lists is left as it was.  What a source
contributes to an index does not depend on whether its tree is dumped.
-/

namespace CrossRef

namespace Grammar

/-- Whether the table of names has a kind. -/
def knows (grammar : Grammar) (kind : Int) : Bool :=
  grammar.names.any fun entry => kind = entry.1

/-- The fault that the first unknown one of some kinds leads to. -/
def firstUnknown (grammar : Grammar) (kinds : List Int) : Option Fault :=
  (kinds.find? fun kind => !grammar.knows kind).map fun kind => .unknownKind (.int kind)

theorem firstUnknown_append (grammar : Grammar) (first second : List Int) :
    grammar.firstUnknown (first ++ second) =
      (grammar.firstUnknown first).or (grammar.firstUnknown second) := by
  rw [firstUnknown, List.find?_append, Option.map_or, firstUnknown, firstUnknown]

theorem firstUnknown_eq_none {grammar : Grammar} {kinds : List Int} :
    grammar.firstUnknown kinds = none ↔ ∀ kind ∈ kinds, grammar.knows kind = true := by
  simp [firstUnknown]

theorem firstUnknown_eq_some {grammar : Grammar} {kinds : List Int} :
    (∃ kind, grammar.firstUnknown kinds = some (.unknownKind kind)) ↔
      ∃ kind ∈ kinds, grammar.knows kind = false := by
  constructor
  · rintro ⟨kind, unknown⟩
    rcases Option.map_eq_some_iff.mp unknown with ⟨number, search, _⟩
    exact ⟨number, List.mem_of_find?_eq_some search, by simpa using List.find?_some search⟩
  · rintro ⟨kind, member, unknown⟩
    cases search : kinds.find? fun kind => !grammar.knows kind with
    | none => exact absurd (List.find?_eq_none.mp search kind member) (by simp [unknown])
    | some found => exact ⟨.int found, by rw [firstUnknown, search, Option.map_some]⟩

theorem nameOf_of_knows {grammar : Grammar} {kind : Int} (known : grammar.knows kind = true) :
    ∃ entry ∈ grammar.names, kind = entry.1 ∧ grammar.nameOf (.int kind) = .ok entry.2 := by
  rcases List.any_eq_true.mp known with ⟨entry, member, isEntry⟩
  cases search : grammar.names.find? fun entry => decide (kind = entry.1) with
  | none => exact absurd isEntry (List.find?_eq_none.mp search entry member)
  | some found =>
      refine ⟨found, List.mem_of_find?_eq_some search, ?_, ?_⟩
      · simpa using List.find?_some search
      · simp only [nameOf, Element.hashable, Element.isNumber, search]

theorem nameOf_of_not_knows {grammar : Grammar} {kind : Int} (unknown : grammar.knows kind = false) :
    grammar.nameOf (.int kind) = .error (.unknownKind (.int kind)) := by
  have search : (grammar.names.find? fun entry => decide (kind = entry.1)) = none := by
    apply List.find?_eq_none.mpr
    exact List.any_eq_false.mp unknown
  simp only [nameOf, Element.hashable, Element.isNumber, search]

theorem names_subset {grammar : Grammar} (version : grammar ∈ versions) :
    grammar.names ⊆ version27.names := by
  rcases mem_versions.mp version with rfl | rfl | rfl
  · exact List.subset_append_left _ _
  · exact List.Subset.refl _
  · exact List.Subset.refl _

/-- The number that the bytes of a name are the digits of. -/
def spelling (name : String) : Nat :=
  name.toByteArray.data.toList.foldl (fun number byte => 256 * number + byte.toNat) 0

/-- No version gives two kinds the same name. -/
theorem numberOf?_of_mem {grammar : Grammar} (version : grammar ∈ versions) {entry : Nat × String}
    (member : entry ∈ grammar.names) : grammar.numberOf? entry.2 = some entry.1 := by
  -- Numbers take much less time to be compared than names.
  have unique : ∀ entry ∈ version27.names,
      (version27.names.find? fun other => spelling other.2 == spelling entry.2) = some entry := by
    decide +kernel
  unfold numberOf?
  cases search : grammar.names.find? fun other => other.2 = entry.2 with
  | none => exact absurd (List.find?_eq_none.mp search entry member) (by simp)
  | some found =>
      have sameName : found.2 = entry.2 := by simpa using List.find?_some search
      have first := unique found (names_subset version (List.mem_of_find?_eq_some search))
      have second := unique entry (names_subset version member)
      rw [sameName] at first
      rw [Option.some.inj (first.symm.trans second)]
      rfl

end Grammar

namespace Element

/-! ## The kinds of a tree -/

/-- The kind at the front of some elements, if it is an integer. -/
def frontKind : List Element → List Int
  | .int kind :: _ => [kind]
  | _ => []

mutual

/-- The integers that stand for kinds in a tree, in the order of reading. -/
def kinds : Element → List Int
  | .node elements | .list elements => frontKind elements ++ allKinds elements
  | _ => []

/-- The integers that stand for kinds in some trees. -/
def allKinds : List Element → List Int
  | [] => []
  | element :: rest => element.kinds ++ allKinds rest

end

mutual

/-- Whether every sequence in a tree starts with an integer. -/
def isNumbered : Element → Bool
  | .node elements | .list elements => !(frontKind elements).isEmpty && allNumbered elements
  | _ => true

/-- Whether every sequence in some trees starts with an integer. -/
def allNumbered : List Element → Bool
  | [] => true
  | element :: rest => element.isNumbered && allNumbered rest

end

/-- A tree and the one with a name in the place of each kind.  Every sequence has become a list. -/
inductive Named (grammar : Grammar) : Element → Element → Prop where
  | plain {element : Element} (isPlain : element.isPlain = true) : Named grammar element element
  | list {entry : Nat × String} {rest named : List Element} (known : entry ∈ grammar.names)
      (each : List.Forall₂ (Named grammar) rest named) :
      Named grammar (.list (.int entry.1 :: rest)) (.list (.text entry.2 :: named))
  | node {entry : Nat × String} {rest named : List Element} (known : entry ∈ grammar.names)
      (each : List.Forall₂ (Named grammar) rest named) :
      Named grammar (.node (.int entry.1 :: rest)) (.list (.text entry.2 :: named))

theorem Named.of_list {grammar : Grammar} {elements : List Element} {named : Element}
    (asList : Named grammar (.list elements) named) : Named grammar (.node elements) named := by
  cases asList with
  | plain isPlain => cases isPlain
  | list known each => exact .node known each

/-! ## Where a renaming stops -/

/-- The fault that the kind at the front of some elements leads to when it is to be named. -/
def kindFault? (grammar : Grammar) : List Element → Option Fault
  | [] => some (.outOfRange "list")
  | kind :: _ =>
    match grammar.nameOf kind with
    | .error fault => some fault
    | .ok _ => none

theorem kindFault?_eq_none {grammar : Grammar} {elements : List Element}
    (nameable : kindFault? grammar elements = none) :
    ∃ kind rest name, elements = kind :: rest ∧ grammar.nameOf kind = .ok name := by
  cases elements with
  | nil => cases nameable
  | cons kind rest =>
      rw [kindFault?] at nameable
      split at nameable
      · cases nameable
      next name named => exact ⟨kind, rest, name, rfl, named⟩

-- The three lemmas follow the three functions of a renaming.  A sequence is renamed before anything in it,
-- so the one at which a renaming stops is still as it was given.
mutual

/-- A renaming stops at a sequence of the given tree whose kind has no name. -/
theorem renameInner_stop (grammar : Grammar) (element : Element) {place : Path} {fault : Fault}
    (stopped : (renameInner grammar element).stop = some (place, fault)) :
    ∃ given, element.Inside place given ∧ given.isPlain = false ∧
      kindFault? grammar given.elements = some fault := by
  cases element with
  | list elements | node elements => exact renameKind_stop grammar elements rfl rfl stopped
  | null | bool value | int value | float value | text value => cases stopped

theorem renameKind_stop (grammar : Grammar) (elements : List Element) {tree : Element}
    (sequence : tree.isPlain = false) (holds : tree.elements = elements) {place : Path} {fault : Fault}
    (stopped : (renameKind grammar elements).stop = some (place, fault)) :
    ∃ given, tree.Inside place given ∧ given.isPlain = false ∧
      kindFault? grammar given.elements = some fault := by
  cases elements with
  | nil =>
      cases stopped
      exact ⟨tree, .here _, sequence, by rw [holds, kindFault?]⟩
  | cons kind rest =>
      rw [renameKind] at stopped
      split at stopped
      next unnamed =>
        cases stopped
        exact ⟨tree, .here _, sequence, by rw [holds, kindFault?, unnamed]⟩
      next =>
        rcases renameEach_stop grammar 1 rest stopped with
          ⟨index, below, child, given, rfl, isChild, inside, isSequence, unnamed⟩
        refine ⟨given, ?_, isSequence, unnamed⟩
        rw [Nat.add_comm]
        apply Inside.descend _ inside
        rw [holds, List.getElem?_cons_succ, isChild]

theorem renameEach_stop (grammar : Grammar) (position : Nat) (elements : List Element) {place : Path}
    {fault : Fault} (stopped : (renameEach grammar position elements).stop = some (place, fault)) :
    ∃ index below child given, place = (position + index) :: below ∧ elements[index]? = some child ∧
      child.Inside below given ∧ given.isPlain = false ∧
      kindFault? grammar given.elements = some fault := by
  cases elements with
  | nil => cases stopped
  | cons element rest =>
      rw [renameEach] at stopped
      split at stopped
      next =>
        rcases renameEach_stop grammar (position + 1) rest stopped with
          ⟨index, below, child, given, rfl, isChild, inside, isSequence, unnamed⟩
        exact ⟨index + 1, below, child, given, by rw [Nat.add_right_comm, Nat.add_assoc], isChild, inside,
          isSequence, unnamed⟩
      next failed =>
        cases stopped
        rcases renameInner_stop grammar element (by rw [failed]) with
          ⟨given, inside, isSequence, unnamed⟩
        exact ⟨0, _, element, given, rfl, rfl, inside, isSequence, unnamed⟩

end

theorem rename_list (grammar : Grammar) (elements : List Element) :
    (list elements).rename grammar = (renameInner grammar (list elements)).toRenamed := by
  rw [rename, renameInner]

theorem rename_stop (grammar : Grammar) {elements : List Element} {place : Path} {fault : Fault}
    (stopped : ((list elements).rename grammar).stop = some (place, fault)) :
    ∃ given, (list elements).Inside place given ∧ given.isPlain = false ∧
      kindFault? grammar given.elements = some fault := by
  rw [rename_list] at stopped
  exact renameInner_stop grammar (list elements) stopped

/-! ## The outcome of a renaming -/

/-- A renaming fails at the first one of some kinds that is unknown, and what it gives otherwise has a
property. -/
structure Settles {Tree : Type} (grammar : Grammar) (kinds : List Int) (property : Tree → Prop)
    (renamed : Renamed Tree) : Prop where
  fault : renamed.fault = grammar.firstUnknown kinds
  tree : renamed.fault = none → property renamed.tree

mutual

theorem renameInner_settles (grammar : Grammar) (element : Element) (numbered : element.isNumbered = true) :
    Settles grammar element.kinds (Named grammar element) (renameInner grammar element).toRenamed := by
  cases element with
  | list elements =>
      rw [isNumbered, Bool.and_eq_true] at numbered
      have settled := renameKind_settles grammar elements numbered.1 numbered.2
      exact ⟨settled.fault, settled.tree⟩
  | node elements =>
      rw [isNumbered, Bool.and_eq_true] at numbered
      have settled := renameKind_settles grammar elements numbered.1 numbered.2
      exact ⟨settled.fault, fun complete => .of_list (settled.tree complete)⟩
  | null | bool value | int value | float value | text value => exact ⟨rfl, fun _ => .plain rfl⟩

theorem renameKind_settles (grammar : Grammar) (elements : List Element)
    (front : (!(frontKind elements).isEmpty) = true) (each : allNumbered elements = true) :
    Settles grammar (frontKind elements ++ allKinds elements)
      (fun named => Named grammar (.list elements) (.list named))
      (renameKind grammar elements).toRenamed := by
  cases elements with
  | nil => cases front
  | cons first rest =>
      cases first with
      | int kind =>
          cases known : grammar.knows kind with
          | false =>
              have unnamed := Grammar.nameOf_of_not_knows known
              constructor
              · simp [renameKind, unnamed, Renamed.fault, Grammar.firstUnknown, frontKind, known]
              · simp [renameKind, unnamed, Renamed.fault]
          | true =>
              rcases Grammar.nameOf_of_knows known with ⟨entry, member, rfl, named⟩
              have settled := renameEach_settles grammar 1 rest each
              constructor
              · simp [renameKind, named, settled.fault, Grammar.firstUnknown, frontKind, allKinds, kinds,
                  known]
              · intro complete
                simp only [renameKind, named, Copied.fault_behind] at complete
                simp only [renameKind, named, Copied.tree_behind]
                exact .list member (settled.tree complete)
      | null | bool value | float value | text value | node inner | list inner => cases front

theorem renameEach_settles (grammar : Grammar) (position : Nat) (elements : List Element)
    (each : allNumbered elements = true) :
    Settles grammar (allKinds elements) (List.Forall₂ (Named grammar) elements)
      (renameEach grammar position elements).toRenamed := by
  cases elements with
  | nil => exact ⟨rfl, fun _ => .nil⟩
  | cons element rest =>
      rw [allNumbered, Bool.and_eq_true] at each
      have first := renameInner_settles grammar element each.1
      have others := renameEach_settles grammar (position + 1) rest each.2
      rw [renameEach]
      split
      next renamed left complete =>
        rw [complete] at first
        constructor
        · rw [allKinds, Grammar.firstUnknown_append, ← first.fault]
          exact others.fault
        · intro restComplete
          exact .cons (first.tree rfl) (others.tree restComplete)
      next renamed place fault left failed =>
        rw [failed] at first
        constructor
        · rw [allKinds, Grammar.firstUnknown_append, ← first.fault]
          rfl
        · intro complete
          cases complete

end

/-- Whether the kinds of a tree are integers that the table of names has. -/
def isNameable (grammar : Grammar) (tree : Element) : Bool :=
  tree.isNumbered && tree.kinds.all (grammar.knows ·)

theorem isNameable_iff {grammar : Grammar} {tree : Element} :
    tree.isNameable grammar = true ↔
      tree.isNumbered = true ∧ ∀ kind ∈ tree.kinds, grammar.knows kind = true := by
  rw [isNameable, Bool.and_eq_true, List.all_eq_true]

theorem rename_of_nameable {grammar : Grammar} {elements : List Element}
    (nameable : (list elements).isNameable grammar = true) :
    let renamed := (list elements).rename grammar
    renamed.fault = none ∧ Named grammar (list elements) renamed.tree := by
  rcases isNameable_iff.mp nameable with ⟨numbered, known⟩
  rw [rename_list]
  have settled := renameInner_settles grammar (list elements) numbered
  have succeeds := settled.fault.trans (Grammar.firstUnknown_eq_none.mpr known)
  exact ⟨succeeds, settled.tree succeeds⟩

/-! ## Back to numbers -/

mutual

/-- A tree with the numbers of its kinds in the place of their names. -/
def renumber (grammar : Grammar) : Element → Element
  | .node elements => .node (renumberKind grammar elements)
  | .list elements => .list (renumberKind grammar elements)
  | element => element

/-- Some elements with the number in the place of the name at their front. -/
def renumberKind (grammar : Grammar) : List Element → List Element
  | .text name :: rest =>
    match grammar.numberOf? name with
    | some number => .int number :: renumberEach grammar rest
    | none => .text name :: renumberEach grammar rest
  | elements => elements

/-- Some trees with the numbers of their kinds in the place of the names. -/
def renumberEach (grammar : Grammar) : List Element → List Element
  | [] => []
  | element :: rest => element.renumber grammar :: renumberEach grammar rest

end

mutual

theorem renumber_of_named {grammar : Grammar} (version : grammar ∈ Grammar.versions)
    {tree named : Element} (isNamed : Named grammar tree named) :
    named.renumber grammar = tree.toLists := by
  cases isNamed with
  | plain isPlain =>
      cases tree with
      | node elements | list elements => cases isPlain
      | null | bool value | int value | float value | text value => rfl
  | list known each | node known each =>
      simp only [renumber, renumberKind, Grammar.numberOf?_of_mem version known, toLists, allToLists,
        renumberEach_of_named version each]

theorem renumberEach_of_named {grammar : Grammar} (version : grammar ∈ Grammar.versions)
    {trees named : List Element} (eachNamed : List.Forall₂ (Named grammar) trees named) :
    renumberEach grammar named = allToLists trees := by
  cases eachNamed with
  | nil => rfl
  | cons first others =>
      rw [renumberEach, allToLists, renumber_of_named version first, renumberEach_of_named version others]

end

/-! ## Nodes turned into lists -/

theorem frontKind_allToLists (elements : List Element) :
    frontKind (allToLists elements) = frontKind elements := by
  cases elements with
  | nil => rfl
  | cons first rest => cases first <;> rfl

mutual

theorem kinds_toLists (element : Element) : element.toLists.kinds = element.kinds := by
  cases element with
  | node elements | list elements =>
      simp only [toLists, kinds, frontKind_allToLists, allKinds_allToLists elements]
  | null | bool value | int value | float value | text value => rfl

theorem allKinds_allToLists (elements : List Element) :
    allKinds (allToLists elements) = allKinds elements := by
  cases elements with
  | nil => rfl
  | cons element rest =>
      rw [allToLists, allKinds, allKinds, kinds_toLists element, allKinds_allToLists rest]

end

mutual

theorem isNumbered_toLists (element : Element) : element.toLists.isNumbered = element.isNumbered := by
  cases element with
  | node elements | list elements =>
      simp only [toLists, isNumbered, frontKind_allToLists, allNumbered_allToLists elements]
  | null | bool value | int value | float value | text value => rfl

theorem allNumbered_allToLists (elements : List Element) :
    allNumbered (allToLists elements) = allNumbered elements := by
  cases elements with
  | nil => rfl
  | cons element rest =>
      rw [allToLists, allNumbered, allNumbered, isNumbered_toLists element, allNumbered_allToLists rest]

end

end Element

/-! ## What a dump leaves -/

namespace Dump

open Element

-- The three lemmas follow the three functions of a renaming.
mutual

/-- A renaming leaves an element without lists as it was. -/
theorem left_renameInner (grammar : Grammar) (element : Element) (free : element.listFree = true) :
    (renameInner grammar element).left = element := by
  cases element with
  | list elements => cases free
  | node elements => rw [renameInner, left_renameKind grammar elements free]
  | null | bool value | int value | float value | text value => rfl

theorem left_renameKind (grammar : Grammar) (elements : List Element)
    (free : allListFree elements = true) : (renameKind grammar elements).left = elements := by
  cases elements with
  | nil => rfl
  | cons kind rest =>
      rw [allListFree, Bool.and_eq_true] at free
      rw [renameKind]
      split
      · rfl
      · rw [Copied.behind, left_renameEach grammar 1 rest free.2]

theorem left_renameEach (grammar : Grammar) (position : Nat) (elements : List Element)
    (free : allListFree elements = true) : (renameEach grammar position elements).left = elements := by
  cases elements with
  | nil => rfl
  | cons element rest =>
      rw [allListFree, Bool.and_eq_true] at free
      have same := left_renameInner grammar element free.1
      rw [renameEach]
      split
      next renamed left complete =>
        rw [complete] at same
        subst same
        rw [Copied.behind, left_renameEach grammar (position + 1) rest free.2]
      next renamed place fault left failed =>
        rw [failed] at same
        subst same
        rfl

end

/-- A dump changes nothing in a tree without lists. -/
theorem left_of_listFree (grammar : Grammar) {tree : Element} (free : tree.listFree = true) :
    (ofTree grammar tree).left = tree := by
  cases tree with
  | node elements => exact left_renameInner grammar (.node elements) free
  | list elements | null | bool value | int value | float value | text value => rfl

/-- A list in a node is changed. -/
example : (ofTree .version3 (.node [.int 4, .list [.int 1]])).left =
    .node [.int 4, .list [.text "NAME"]] := by
  rfl

theorem ofLists_of_nameable {grammar : Grammar} {tree : Element} (sequence : tree.isPlain = false)
    (nameable : tree.isNameable grammar = true) : ∃ shown, ofLists grammar tree.toLists = .ok shown := by
  rcases isNameable_iff.mp nameable with ⟨numbered, known⟩
  have asLists : tree.toLists.isNameable grammar = true := by
    apply isNameable_iff.mpr
    rw [isNumbered_toLists, kinds_toLists]
    exact ⟨numbered, known⟩
  cases tree with
  | node elements | list elements =>
      have succeeds := (rename_of_nameable asLists).1
      rw [toLists, ofLists, textOf, succeeds]
      exact ⟨_, rfl⟩
  | null | bool value | int value | float value | text value => cases sequence

end Dump

namespace Indexing

/-- A dump that succeeds adds what it prints and changes nothing else. -/
theorem addSource_dump {settings : Settings} {reader : Reader} {source : String}
    (shows : ∀ tree, reader (prepare source) = .ok tree →
      ∃ shown, Dump.ofLists settings.grammar tree.toLists = .ok shown) (indexing : Indexing) :
    ∃ shown, indexing.addSource settings reader true source =
      (indexing.addSource settings reader false source).print shown := by
  unfold addSource
  cases empty : source.isEmpty with
  | true => exact ⟨"", by simp [print]⟩
  | false =>
      cases read : reader (prepare source) with
      | error fault => exact ⟨"", by simp [read, print, fail]⟩
      | ok tree =>
          rcases shows tree read with ⟨shown, succeeds⟩
          refine ⟨shown, ?_⟩
          simp only [read, succeeds, Bool.false_eq_true, if_true, if_false]
          split
          · simp [print, fail]
          · simp [print]

end Indexing

/-- A renaming loses nothing.  It fails exactly if a kind is not in the table of names; otherwise it gives
the tree of lists with the names in the place of the kinds, from which the tree can be had back.  A dump
leaves a tree without lists as it is, and only adds what it prints to what a source contributes. -/
theorem rename_loses_nothing {grammar : Grammar} (version : grammar ∈ Grammar.versions) :
    (∀ elements, (Element.list elements).isNumbered = true →
      let tree := Element.list elements
      let renamed := tree.rename grammar
      ((∃ kind, renamed.fault = some (.unknownKind kind)) ↔
          ∃ kind ∈ tree.kinds, grammar.knows kind = false) ∧
        ((∀ kind ∈ tree.kinds, grammar.knows kind = true) →
          renamed.fault = none ∧ Element.Named grammar tree renamed.tree ∧
            renamed.tree.renumber grammar = tree.toLists)) ∧
    (∀ first second, (Element.list first).isNameable grammar = true →
      (Element.list second).isNameable grammar = true →
      (Element.list first).toLists = .list first → (Element.list second).toLists = .list second →
      ((Element.list first).rename grammar).tree = ((Element.list second).rename grammar).tree →
      first = second) ∧
    (∀ tree : Element, tree.listFree = true → (Dump.ofTree grammar tree).left = tree) ∧
    ∀ (settings : Settings) (reader : Reader) (indexing : Indexing) (source : String),
      settings.grammar = grammar →
      (∀ tree, reader (Indexing.prepare source) = .ok tree →
        tree.isPlain = false ∧ tree.isNameable grammar = true) →
      ∃ shown, indexing.addSource settings reader true source =
        (indexing.addSource settings reader false source).print shown := by
  refine ⟨?_, ?_, ?_, ?_⟩
  · intro elements numbered
    refine ⟨?_, ?_⟩
    · rw [Element.rename_list, (Element.renameInner_settles grammar (.list elements) numbered).fault]
      exact Grammar.firstUnknown_eq_some
    · intro known
      rcases Element.rename_of_nameable (Element.isNameable_iff.mpr ⟨numbered, known⟩) with ⟨succeeds, named⟩
      exact ⟨succeeds, named, Element.renumber_of_named version named⟩
  · intro first second firstNameable secondNameable firstLists secondLists same
    have firstBack := Element.renumber_of_named version (Element.rename_of_nameable firstNameable).2
    have secondBack := Element.renumber_of_named version (Element.rename_of_nameable secondNameable).2
    rw [same, secondBack, secondLists, firstLists] at firstBack
    exact (Element.list.inj firstBack).symm
  · intro tree free
    exact Dump.left_of_listFree grammar free
  · rintro settings reader indexing source rfl sound
    apply Indexing.addSource_dump
    intro tree read
    rcases sound tree read with ⟨sequence, nameable⟩
    exact Dump.ofLists_of_nameable sequence nameable

/-- A tree in which nodes and lists are mixed. -/
def mixedElements : List Element :=
  [.int 257, .node [.int 1, .text "x", .int 1], .list [.int 4, .node [.int 256], .text "", .int 1]]

theorem rename_loses_nothing_mixedElements :
    let renamed := (Element.list mixedElements).rename .version3
    renamed.fault = none ∧ renamed.tree.renumber .version3 = (Element.list mixedElements).toLists ∧
      (Dump.ofTree .version3 (Indexing.toNodes (.list mixedElements))).left =
        Indexing.toNodes (.list mixedElements) ∧
      ∃ shown, ({} : Indexing).addSource {} (.ofTable [("x\n", .ok (.list mixedElements))]) true "x" =
        (({} : Indexing).addSource {} (.ofTable [("x\n", .ok (.list mixedElements))]) false "x").print shown := by
  have version : Grammar.version3 ∈ Grammar.versions := List.mem_cons_self
  have nameable : (Element.list mixedElements).isNameable .version3 = true := by decide
  rcases Element.isNameable_iff.mp nameable with ⟨numbered, known⟩
  rcases rename_loses_nothing version with ⟨renames, _, leaves, prints⟩
  rcases (renames mixedElements numbered).2 known with ⟨succeeds, _, back⟩
  refine ⟨succeeds, back, leaves _ (by decide), prints {} _ {} "x" rfl ?_⟩
  intro tree read
  have isTree : tree = .list mixedElements := by
    have prepared : Indexing.prepare "x" = "x\n" := by decide +kernel
    rw [prepared] at read
    exact (Except.ok.inj read).symm
  rw [isTree]
  exact ⟨rfl, nameable⟩

end CrossRef
