import CrossRef.Proofs.Navigation
import CrossRef.Proofs.Terminals
import Mathlib.Data.List.Forall2

/-!
# Counterparts in an older version

Version 2.7 of the grammar has other constructs on the left of assignments and between the brackets of
lists, no starred targets, no ellipsis and a few other keywords, and it counts no half modules.  A tree of
version 3 that avoids what only one of the versions has corresponds to a tree of version 2.7 of the same
shape.  Every route leads to counterparts in the two trees, so a question about either of them has the
same answer unless it tells a kind from the one that takes its place.
-/

namespace CrossRef

namespace Kind

/-- A starred target. -/
def starred : Nat := 311

/-- The members of a list between square brackets in the older versions. -/
def listMaker : Nat := 338

/-- Whether a number is a kind of version 3 that a tree for both versions can have. -/
def isCommon (kind : Int) : Bool :=
  (Grammar.version3.names.any fun (number, _) => kind = number) && kind ≠ starred && kind ≠ ellipsis

/-- The kind that takes the place of a kind of version 3, wherever it stands. -/
def older (kind : Int) : Int :=
  if kind = Grammar.version3.targetList then Grammar.version27.targetList else kind

/-- The kinds that can take the place of a kind of version 3. -/
inductive Older : Int → Int → Prop where
  | same {kind : Int} (notTargets : kind ≠ Grammar.version3.targetList) : Older kind kind
  | targets : Older Grammar.version3.targetList Grammar.version27.targetList
  | listMaker : Older members Kind.listMaker

/-- The kinds that take the place of others or have others in their place. -/
def changing : List Nat :=
  [Grammar.version3.targetList, Grammar.version27.targetList, members, listMaker]

theorem older_older (kind : Int) : Older kind (older kind) := by
  unfold older
  split
  next isTargets =>
    rw [isTargets]
    exact .targets
  next notTargets => exact .same notTargets

/-- All other kinds are what they were. -/
theorem Older.eq_iff {kind other : Int} (older : Older kind other) {number : Nat}
    (stable : number ∉ changing) : other = number ↔ kind = number := by
  simp only [changing, Grammar.version3, Grammar.version27, members, Kind.listMaker, List.mem_cons,
    List.not_mem_nil, or_false, not_or] at stable
  cases older with
  | same notTargets => rfl
  | targets =>
      simp only [Grammar.version3, Grammar.version27]
      omega
  | listMaker =>
      simp only [members, Kind.listMaker]
      omega

end Kind

namespace Element

/-- A node with the kind of a list maker. -/
def asListMaker : Element → Element
  | .node (_ :: rest) => .node (.int Kind.listMaker :: rest)
  | element => element

/-- Makes list makers of the members that stand between square brackets; `before` is the element in front
of the given ones. -/
def bracketed (before : Element) : List Element → List Element
  | [] => []
  | element :: rest =>
    (if before.isOfKind Kind.leftBracket && element.isOfKind Kind.members &&
        rest.head?.any (·.isOfKind Kind.rightBracket) then element.asListMaker else element) ::
      bracketed element rest

mutual

/-- The tree of version 2.7 that corresponds to a tree of version 3. -/
def older : Element → Element
  | .node (.int kind :: rest) =>
    .node (.int (Kind.older kind) ::
      if kind = Grammar.version3.atom then bracketed .null (olderAll rest) else olderAll rest)
  | element => element

/-- The trees of version 2.7 that correspond to some trees of version 3. -/
def olderAll : List Element → List Element
  | [] => []
  | element :: rest => element.older :: olderAll rest

end

/-- Whether the children of an expression statement are read in the same way: if there are three or more,
a list of tests stands only behind the operator of an augmented assignment, and no list of targets
does. -/
def operandsAgree : List Element → Bool
  | first :: operator :: operand :: others =>
    let isTestList := fun child : Element => child.isOfKind Grammar.version3.testList
    !isTestList first && !isTestList operator && !others.any isTestList &&
      if operator.isOfKind Grammar.version3.augmentedAssignment then
        !operand.isOfKind Grammar.version3.targetList
      else !isTestList operand
  | _ => true

/-- Whether the text of a name is a keyword in both versions or in neither. -/
def wordAgrees (text : Option Element) : Bool :=
  text.all fun text => Grammar.version3.isKeyword text = Grammar.version27.isKeyword text

mutual

/-- Whether a tree of version 3 has only what both versions have. -/
def isCommon : Element → Bool
  | .node (.int kind :: rest) =>
    Kind.isCommon kind && (kind ≠ Kind.name || wordAgrees rest.head?) &&
      (kind ≠ Grammar.version3.expressionStatement || operandsAgree rest) && allCommon rest
  | .node _ | .list _ => false
  | _ => true

/-- Whether some trees of version 3 have only what both versions have. -/
def allCommon : List Element → Bool
  | [] => true
  | element :: rest => element.isCommon && allCommon rest

end

mutual

/-- Whether every list of imported names in a tree has one comma less than names, so that no half a
module is counted. -/
def importsWhole : Element → Bool
  | .node (.int kind :: rest) =>
    (kind ≠ Grammar.version3.importedNames || rest.length % 2 = 1) && allImportWhole rest
  | _ => true

/-- Whether no half a module is counted in some trees. -/
def allImportWhole : List Element → Bool
  | [] => true
  | element :: rest => element.importsWhole && allImportWhole rest

end

/-- Whether an element is no sequence. -/
def isPlain : Element → Bool
  | .node _ | .list _ => false
  | _ => true

/-- A tree of version 3 and a tree of version 2.7 that has the place of it. -/
inductive Counterpart : Element → Element → Prop where
  | plain {element : Element} (isPlain : element.isPlain = true) : Counterpart element element
  | node {kind older : Int} {rest others : List Element} (common : Kind.isCommon kind = true)
      (changes : Kind.Older kind older) (word : kind = Kind.name → wordAgrees rest.head? = true)
      (operands : kind = Grammar.version3.expressionStatement → operandsAgree rest = true)
      (counted : kind = Grammar.version3.importedNames → rest.length % 2 = 1)
      (children : List.Forall₂ Counterpart rest others) :
      Counterpart (.node (.int kind :: rest)) (.node (.int older :: others))

/-- The members of a list can also become a list maker. -/
theorem Counterpart.asListMaker {element other : Element} (counterpart : Counterpart element other)
    (isMembers : other.isOfKind Kind.members = true) : Counterpart element other.asListMaker := by
  cases counterpart with
  | plain isPlain =>
      have same : element.asListMaker = element := by
        cases element with
        | node | list => cases isPlain
        | null | bool | int | float | text => rfl
      rw [same]
      exact .plain isPlain
  | node common changes word operands counted children =>
      rw [isOfKind_node, decide_eq_true_iff] at isMembers
      have wasMembers : Kind.Older Kind.members Kind.listMaker := .listMaker
      cases changes with
      | same notTargets =>
          subst isMembers
          exact .node common wasMembers word operands counted children
      | targets => cases isMembers
      | listMaker => cases isMembers

theorem counterpart_bracketed {elements others : List Element}
    (counterparts : List.Forall₂ Counterpart elements others) (before : Element) :
    List.Forall₂ Counterpart elements (bracketed before others) := by
  induction counterparts generalizing before with
  | nil => exact .nil
  | @cons element other elements others counterpart _ ih =>
      refine .cons ?_ (ih other)
      split
      next between =>
        simp only [Bool.and_eq_true] at between
        exact counterpart.asListMaker between.1.2
      next => exact counterpart

mutual

theorem counterpart_older {element : Element} (common : element.isCommon = true)
    (whole : element.importsWhole = true) : Counterpart element element.older := by
  cases element with
  | node elements =>
      cases elements with
      | nil => cases common
      | cons first rest =>
          cases first with
          | int kind =>
              simp only [isCommon, Bool.and_eq_true, Bool.or_eq_true, decide_eq_true_eq] at common
              simp only [importsWhole, Bool.and_eq_true, Bool.or_eq_true, decide_eq_true_eq] at whole
              rcases common with ⟨⟨⟨isKind, word⟩, operands⟩, rest⟩
              have below := counterparts_older rest whole.2
              refine .node isKind (Kind.older_older kind) ?_ ?_ ?_ ?_
              · intro isName
                exact word.resolve_left (not_not_intro isName)
              · intro isStatement
                exact operands.resolve_left (not_not_intro isStatement)
              · intro isList
                exact whole.1.resolve_left (not_not_intro isList)
              · split
                · exact counterpart_bracketed below .null
                · exact below
          | null | bool | float | text | node | list => cases common
  | list elements => cases common
  | null | bool | int | float | text => exact .plain rfl

theorem counterparts_older {elements : List Element} (common : allCommon elements = true)
    (whole : allImportWhole elements = true) :
    List.Forall₂ Counterpart elements (olderAll elements) := by
  cases elements with
  | nil => exact .nil
  | cons element rest =>
      simp only [allCommon, Bool.and_eq_true] at common
      simp only [allImportWhole, Bool.and_eq_true] at whole
      exact .cons (counterpart_older common.1 whole.1) (counterparts_older common.2 whole.2)

end

/-! ## What is found at a place -/

/-- What the two versions have at the same place: counterparts, or the kinds of counterparts. -/
inductive Found : Element → Element → Prop where
  | element {element other : Element} (counterpart : Counterpart element other) : Found element other
  | kind {kind older : Int} (common : Kind.isCommon kind = true) (changes : Kind.Older kind older) :
      Found (.int kind) (.int older)

/-- What stands in the place of a kind: a kind, or a character of a text. -/
inductive FoundKind : Element → Element → Prop where
  | kind {kind older : Int} (common : Kind.isCommon kind = true) (changes : Kind.Older kind older) :
      FoundKind (.int kind) (.int older)
  | char (value : String) : FoundKind (.text value) (.text value)

/-- Two attempts to find something that fail for the same reason or find what is related. -/
inductive Matching {Entry : Type} (relation : Entry → Entry → Prop) :
    Except Fault Entry → Except Fault Entry → Prop where
  | error (fault : Fault) : Matching relation (.error fault) (.error fault)
  | ok {entry other : Entry} (related : relation entry other) : Matching relation (.ok entry) (.ok other)

variable {element other : Element}

theorem Found.elements (found : Found element other) :
    List.Forall₂ Found element.elements other.elements := by
  cases found with
  | kind common changes => exact .nil
  | element counterpart =>
      cases counterpart with
      | plain isPlain =>
          cases element with
          | node | list => cases isPlain
          | null | bool | int | float | text => exact .nil
      | node common changes word operands counted children =>
          exact .cons (.kind common changes) (children.imp fun _ _ => .element)

theorem matching_pick {elements others : List Element} (related : List.Forall₂ Found elements others)
    (position : Int) :
    (pick? elements position = none ∧ pick? others position = none) ∨
      ∃ element other, pick? elements position = some element ∧ pick? others position = some other ∧
        Found element other := by
  unfold pick?
  rw [← related.length_eq]
  cases place? elements.length position with
  | none => exact Or.inl ⟨rfl, rfl⟩
  | some place =>
      simp only [Option.bind_some]
      induction related generalizing place with
      | nil => exact Or.inl ⟨rfl, rfl⟩
      | cons found related ih =>
          cases place with
          | zero => exact Or.inr ⟨_, _, rfl, rfl, found⟩
          | succ place => simpa using ih place

theorem Found.entry (found : Found element other) (position : Int) :
    Matching Found (element.entry position) (other.entry position) := by
  have related := found.elements
  cases found with
  | kind common changes => exact .error _
  | element counterpart =>
      cases counterpart with
      | plain isPlain =>
          cases element with
          | node | list => cases isPlain
          | text value =>
              unfold Element.entry
              simp only
              split
              · exact .ok (.element (.plain rfl))
              · exact .error _
          | null | bool | int | float => exact .error _
      | node common changes word operands counted children =>
          rcases matching_pick related position with ⟨none, alsoNone⟩ |
            ⟨entry, other, some, alsoSome, found⟩
          · simp only [Element.elements] at none alsoNone
            simp only [Element.entry, none, alsoNone]
            exact .error _
          · simp only [Element.elements] at some alsoSome
            simp only [Element.entry, some, alsoSome]
            exact .ok found

theorem Found.follow (found : Found element other) (route : List Int) :
    Matching Found (element.follow route) (other.follow route) := by
  induction route generalizing element other with
  | nil => exact .ok found
  | cons position rest ih =>
      have first := found.entry position
      unfold Element.follow
      generalize element.entry position = next at first
      generalize other.entry position = otherNext at first
      cases first with
      | error fault => exact .error fault
      | ok related => exact ih related

theorem Found.kind_matching (found : Found element other) :
    Matching FoundKind element.kind other.kind := by
  cases found with
  | kind common changes => exact .error _
  | element counterpart =>
      cases counterpart with
      | plain isPlain =>
          cases element with
          | node | list => cases isPlain
          | text value =>
              unfold Element.kind Element.entry
              simp only
              split
              · exact .ok (.char _)
              · exact .error _
          | null | bool | int | float => exact .error _
      | node common changes word operands counted children =>
          rw [kind_node, kind_node]
          exact .ok (.kind common changes)

theorem follow_append (element : Element) (route : List Int) (position : Int) :
    element.follow (route ++ [position]) =
      match element.follow route with
      | .ok found => found.entry position
      | .error fault => .error fault := by
  induction route generalizing element with
  | nil =>
      simp only [List.nil_append, Element.follow]
      cases element.entry position <;> rfl
  | cons first rest ih =>
      simp only [List.cons_append, Element.follow]
      cases element.entry first with
      | error fault => rfl
      | ok next => exact ih next

theorem Found.follow_kind (found : Found element other) (route : List Int) :
    Matching FoundKind (element.follow (route ++ [0])) (other.follow (route ++ [0])) := by
  have reached := found.follow route
  rw [follow_append, follow_append]
  generalize element.follow route = target at reached
  generalize other.follow route = otherTarget at reached
  cases reached with
  | error fault => exact .error fault
  | ok related => exact related.kind_matching

/-! ## Questions -/

theorem Matching.asks {relation : Element → Element → Prop} {route : List Int}
    (matching : Matching relation (element.follow route) (other.follow route))
    {question otherQuestion : Element → Bool}
    (agree : ∀ target otherTarget, relation target otherTarget →
      otherQuestion otherTarget = question target) :
    other.asks route otherQuestion = element.asks route question := by
  unfold Element.asks
  generalize element.follow route = target at matching
  generalize other.follow route = otherTarget at matching
  cases matching with
  | error fault => rfl
  | ok related => exact congrArg Except.ok (agree _ _ related)

/-- A question about a kind has the same answer in both versions if it does not tell a kind from those
that can take its place. -/
theorem Found.asks_kind (found : Found element other) (route : List Int)
    {question otherQuestion : Element → Bool}
    (agree : ∀ kind older, FoundKind kind older → otherQuestion older = question kind) :
    other.asks (route ++ [0]) otherQuestion = element.asks (route ++ [0]) question :=
  (found.follow_kind route).asks agree

theorem FoundKind.isNumber {kind older : Element} (found : FoundKind kind older) {number : Nat}
    (stable : number ∉ Kind.changing) : older.isNumber number = kind.isNumber number := by
  cases found with
  | kind common changes => simp [Element.isNumber, changes.eq_iff stable]
  | char value => rfl

theorem FoundKind.isNumberIn {kind older : Element} (found : FoundKind kind older) {numbers : List Nat}
    (stable : ∀ number ∈ numbers, number ∉ Kind.changing) :
    older.isNumberIn numbers = kind.isNumberIn numbers := by
  unfold Element.isNumberIn
  rw [Bool.eq_iff_iff, List.any_eq_true, List.any_eq_true]
  constructor
  · rintro ⟨number, member, isNumber⟩
    exact ⟨number, member, (found.isNumber (stable number member)).symm.trans isNumber⟩
  · rintro ⟨number, member, isNumber⟩
    exact ⟨number, member, (found.isNumber (stable number member)).trans isNumber⟩

theorem Found.kindIs (found : Found element other) (route : List Int) {number : Nat}
    (stable : number ∉ Kind.changing) : other.kindIs route number = element.kindIs route number :=
  found.asks_kind route fun _ _ related => related.isNumber stable

theorem Found.kindIn (found : Found element other) (route : List Int) {numbers : List Nat}
    (stable : ∀ number ∈ numbers, number ∉ Kind.changing) :
    other.kindIn route numbers = element.kindIn route numbers :=
  found.asks_kind route fun _ _ related => related.isNumberIn stable

theorem Found.isText (found : Found element other) (text : String) :
    other.isText text = element.isText text := by
  cases found with
  | kind common changes => rfl
  | element counterpart =>
      cases counterpart with
      | plain isPlain => rfl
      | node common changes word operands counted children => rfl

theorem Found.asks_text (found : Found element other) (route : List Int) (texts : List String) :
    (other.asks route fun text => texts.any (text.isText ·)) =
      element.asks route fun text => texts.any (text.isText ·) := by
  apply (found.follow route).asks
  intro entry target related
  simp only [related.isText]

theorem Found.length (found : Found element other) : other.length = element.length := by
  have count := found.elements.length_eq
  cases found with
  | kind common changes => rfl
  | element counterpart =>
      cases counterpart with
      | plain isPlain => rfl
      | node common changes word operands counted children => exact congrArg Except.ok count.symm

theorem Found.lengthIs (found : Found element other) (route : List Int) (question : Nat → Bool) :
    other.lengthIs route question = element.lengthIs route question := by
  have reached := found.follow route
  unfold Element.lengthIs
  generalize element.follow route = target at reached
  generalize other.follow route = otherTarget at reached
  cases reached with
  | error fault => rfl
  | ok related => simp only [related.length]

/-- What is found at the end of a route, with its place. -/
def FoundAt (entry other : Path × Element) : Prop :=
  other.1 = entry.1 ∧ Found entry.2 other.2

theorem Found.locate (found : Found element other) (path : Path) (route : List Int) :
    Matching FoundAt (locate path element route) (locate path other route) := by
  induction route generalizing element other path with
  | nil => exact .ok ⟨rfl, found⟩
  | cons position rest ih =>
      have first := found.entry position
      unfold Element.locate
      rw [← found.elements.length_eq]
      generalize element.entry position = next at first
      generalize other.entry position = otherNext at first
      cases first with
      | error fault => exact .error fault
      | ok related => exact ih related _

/-- Entries of the two versions with the same positions. -/
def Entries : List (Nat × Element) → List (Nat × Element) → Prop :=
  List.Forall₂ fun entry other => other.1 = entry.1 ∧ Found entry.2 other.2

theorem Found.numbered (found : Found element other) (start : Nat) :
    Entries (element.numbered start) (other.numbered start) := by
  have positioned (position : Nat) {elements others : List Element}
      (related : List.Forall₂ Found elements others) :
      List.Forall₂ (fun entry other => other.2 = entry.2 ∧ Found entry.1 other.1)
        (elements.zipIdx position) (others.zipIdx position) := by
    induction related generalizing position with
    | nil => exact .nil
    | cons first _ ih => exact .cons ⟨rfl, first⟩ (ih (position + 1))
  unfold Element.numbered Entries
  rw [List.forall₂_map_left_iff, List.forall₂_map_right_iff]
  exact List.forall₂_drop start (positioned 0 found.elements)

end Element

namespace Element.FoundKind

variable {kind older : Element}

/-! ## Where the versions differ

The lists of kinds that are not the same in the two versions differ in kinds that no common tree has, or
in kinds that take the place of each other. -/

/-- Kinds that no common tree has make no difference. -/
theorem isNumberIn_append (found : FoundKind kind older) {numbers : List Nat} (more : List Nat)
    (stable : ∀ number ∈ numbers, number ∉ Kind.changing)
    (uncommon : ∀ number ∈ more, Kind.isCommon number = false) :
    older.isNumberIn numbers = kind.isNumberIn (numbers ++ more) := by
  have never : kind.isNumberIn more = false := by
    cases found with
    | char value => simp [Element.isNumberIn, Element.isNumber]
    | kind common changes =>
        simp only [Element.isNumberIn, Element.isNumber, List.any_eq_false, decide_eq_true_eq]
        rintro number member rfl
        rw [uncommon number member] at common
        cases common
  rw [found.isNumberIn stable]
  unfold Element.isNumberIn at never ⊢
  rw [List.any_append, never, Bool.or_false]

theorem markable (found : FoundKind kind older) :
    older.isNumberIn Grammar.version27.markable = kind.isNumberIn Grammar.version3.markable :=
  found.isNumberIn_append [Kind.ellipsis] (by decide) (by decide)

theorem relativeDots (found : FoundKind kind older) :
    older.isNumberIn Grammar.version27.relativeDots = kind.isNumberIn Grammar.version3.relativeDots :=
  found.isNumberIn_append [Kind.ellipsis] (by decide) (by decide)

theorem targets (found : FoundKind kind older) :
    older.isNumberIn Grammar.version27.targets = kind.isNumberIn Grammar.version3.targets :=
  found.isNumberIn_append [Kind.starred] (by decide) (by decide)

theorem bracketed (found : FoundKind kind older) :
    older.isNumberIn Grammar.version27.bracketed = kind.isNumberIn Grammar.version3.bracketed := by
  cases found with
  | char value => rfl
  | @kind kind older common changes =>
      cases changes with
      | same notTargets =>
          have notListMaker : kind ≠ 338 := by
            rintro rfl
            revert common
            decide
          simp [Element.isNumberIn, Element.isNumber, Grammar.version27, Grammar.version3, notListMaker]
      | targets => rfl
      | listMaker => rfl

theorem targetList (found : FoundKind kind older)
    (notTestList : kind.isNumber Grammar.version3.testList = false) :
    older.isNumber Grammar.version27.targetList = kind.isNumber Grammar.version3.targetList := by
  cases found with
  | char value => rfl
  | kind common changes =>
      cases changes with
      | same notTargets =>
          simp only [Element.isNumber, decide_eq_false_iff_not] at notTestList ⊢
          rw [decide_eq_false notTargets]
          exact decide_eq_false notTestList
      | targets => rfl
      | listMaker => rfl

theorem operand (found : FoundKind kind older)
    (notTargets : kind.isNumber Grammar.version3.targetList = false) :
    older.isNumberIn [Grammar.version27.testList, Grammar.version27.yieldExpression] =
      kind.isNumberIn [Grammar.version3.testList, Grammar.version3.yieldExpression] := by
  cases found with
  | char value => rfl
  | kind common changes =>
      cases changes with
      | same => rfl
      | targets => cases notTargets
      | listMaker => rfl

end Element.FoundKind

end CrossRef
