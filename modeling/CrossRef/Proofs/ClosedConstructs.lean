import CrossRef.Proofs.Counterparts
import CrossRef.Proofs.PendingNotes
import CrossRef.Proofs.Relocation

/-!
# Constructs that no plan looks into

The plans of a walk look at the nodes below a construct, at the nodes below these and so on.  They never
look into a test, a starred expression or one of the levels of operators that lead from there to a
primary: before they look into a node they make sure of what it is, and it is never one of these.  So
trees that differ only inside such constructs make a walk plan the same.

The places that a plan speaks of are reached in the same way.  If the ways of one tree that lead through
no such construct are carried over to those of the other, so are all places of the plans.
-/

namespace CrossRef

namespace Kind

/-- The levels of operators between a test and a primary. -/
def levels : List Nat := [306, 307, 308, 309, 312, 313, 314, 315, 316, 317, 318]

example : (levels.map fun level => (Grammar.version3.names.lookup level).getD "") =
    ["or_test", "and_test", "not_test", "comparison", "expr", "xor_expr", "and_expr", "shift_expr",
     "arith_expr", "term", "factor"] := by
  decide +kernel

/-- The constructs that no plan looks into. -/
def closed : List Nat := Grammar.version3.test :: starred :: levels

end Kind

/-- The constructs that plans look into. -/
@[simp]
def Grammar.lookedInto (grammar : Grammar) : List Nat :=
  [grammar.decorators, grammar.decorator, grammar.dottedName, grammar.targetList, grammar.power,
   grammar.atom, grammar.trailer, Kind.name] ++ grammar.bracketed

theorem Grammar.not_closed {grammar : Grammar} (version : grammar ∈ versions) {number : Nat}
    (looked : number ∈ grammar.lookedInto) : number ∉ Kind.closed := by
  have apart : ∀ grammar ∈ versions, ∀ number ∈ grammar.lookedInto, number ∉ Kind.closed := by decide
  exact apart grammar version number looked

namespace Element

/-- Whether a plan may look into an element. -/
def isOpen : Element → Bool
  | .text _ => false
  | element => !element.isOfKindIn Kind.closed

theorem isOpen_of_not_closed {node : Element} (notText : ∀ value, node ≠ .text value)
    (notClosed : node.isOfKindIn Kind.closed = false) : node.isOpen = true := by
  cases node with
  | text value => exact absurd rfl (notText value)
  | null | bool value | int value | float value | node elements | list elements =>
      simp [isOpen, notClosed]

theorem isOpen_of_isOfKind {node : Element} {number : Nat} (isKind : node.isOfKind number = true)
    (notClosed : number ∉ Kind.closed) : node.isOpen = true := by
  apply isOpen_of_not_closed
  · rintro value rfl
    rw [isOfKind_text] at isKind
    cases isKind
  · apply List.any_eq_false.mpr
    intro other member
    rw [not_isOfKind isKind other (fun same => notClosed (same ▸ member))]
    exact Bool.false_ne_true

theorem isOpen_closed {kind : Element} (isClosed : kind.isNumberIn Kind.closed = true)
    (rest : List Element) : (node (kind :: rest)).isOpen = false := by
  have ofKind : (node (kind :: rest)).isOfKindIn Kind.closed = true := by
    unfold isOfKindIn
    simp only [isOfKind_eq (kind_node kind rest)]
    exact isClosed
  simp [isOpen, ofKind]

/-- Two elements that differ only inside closed constructs. -/
inductive Resembles : Element → Element → Prop where
  | refl (element : Element) : Resembles element element
  | closed {kind : Element} {rest others : List Element} (isClosed : kind.isNumberIn Kind.closed = true)
      (lengths : others.length = rest.length) : Resembles (.node (kind :: rest)) (.node (kind :: others))
  | node (kind : Element) {rest others : List Element} (each : List.Forall₂ Resembles rest others) :
      Resembles (.node (kind :: rest)) (.node (kind :: others))

section

variable {element other : Element}

theorem Resembles.count (alike : Resembles element other) :
    other.elements.length = element.elements.length := by
  cases alike with
  | refl => rfl
  | closed isClosed lengths => exact congrArg (· + 1) lengths
  | node kind each => exact congrArg (· + 1) each.length_eq.symm

theorem Resembles.kind (alike : Resembles element other) : other.kind = element.kind := by
  cases alike with
  | refl => rfl
  | closed isClosed lengths => rw [kind_node, kind_node]
  | node kind each => rw [kind_node, kind_node]

theorem Resembles.length (alike : Resembles element other) : other.length = element.length := by
  have count := alike.count
  cases alike with
  | refl => rfl
  | closed isClosed lengths => exact congrArg Except.ok count
  | node kind each => exact congrArg Except.ok count

theorem Resembles.isText (alike : Resembles element other) (text : String) :
    other.isText text = element.isText text := by
  cases alike <;> rfl

theorem Resembles.toInteger (alike : Resembles element other) : other.toInteger = element.toInteger := by
  cases alike <;> rfl

/-- The elements of what a plan may look into resemble each other one by one. -/
theorem Resembles.elements (alike : Resembles element other) (isOpen : element.isOpen = true) :
    List.Forall₂ Resembles element.elements other.elements := by
  cases alike with
  | refl => exact List.forall₂_same.mpr fun inner _ => .refl inner
  | closed isClosed lengths =>
      rw [isOpen_closed isClosed] at isOpen
      cases isOpen
  | node kind each => exact .cons (.refl kind) each

end

/-- A way inside an element that leads through no closed construct. -/
inductive Clear : Element → Path → Prop where
  | here (node : Element) : Clear node []
  | descend {node child : Element} {index : Nat} {rest : Path} (isOpen : node.isOpen = true)
      (isChild : node.elements[index]? = some child) (clear : Clear child rest) :
      Clear node (index :: rest)

/-- An element at a place and one that resembles it at the moved place.  The clear ways inside lead to
places that are moved in the same way. -/
structure Relocated (relocation : Relocation) (place moved : Path) (element other : Element) : Prop where
  alike : Resembles element other
  steady : ∀ rest, element.Clear rest → relocation.move (place ++ rest) = moved ++ rest

/-! ## What is found on the way -/

/-- A route on which a plan looks only into what is open. -/
def Opens (node : Element) : List Int → Prop
  | [] => True
  | position :: route => node.isOpen = true ∧ ∀ child, node.entry position = .ok child → child.Opens route

theorem opens_nil (node : Element) : node.Opens [] := by
  rw [Opens]
  trivial

theorem opens_one {node : Element} (isOpen : node.isOpen = true) (position : Int) :
    node.Opens [position] := by
  simp only [Opens, isOpen, implies_true, and_self]

theorem opens_two {node : Element} (isOpen : node.isOpen = true) {position : Int} {number : Nat}
    (isKind : node.kindIs [position] number = .ok true) (notClosed : number ∉ Kind.closed) (later : Int) :
    node.Opens [position, later] := by
  rw [Opens]
  refine ⟨isOpen, ?_⟩
  intro child isChild
  rw [kindIs_of_entry isChild, kindIs_nil_eq_true] at isKind
  exact opens_one (isOpen_of_isOfKind isKind notClosed) later

theorem follow_eq_locate (path : Path) (element : Element) (route : List Int) :
    element.follow route = (locate path element route).map Prod.snd := by
  induction route generalizing path element with
  | nil => rfl
  | cons position rest ih =>
      rw [follow, locate]
      cases element.entry position with
      | error fault => rfl
      | ok next => exact ih _ next

theorem kindIn_of_follow {element found : Element} {route : List Int}
    (isFound : element.follow route = .ok found) (numbers : List Nat) :
    element.kindIn route numbers = found.kindIn [] numbers := by
  rw [kindIn_nil, kindIn, asks, follow_append, isFound]
  rfl

theorem exists_of_forall₂ {First Second : Type} {related : First → Second → Prop} {firsts : List First}
    {seconds : List Second} (pairs : List.Forall₂ related firsts seconds) {index : Nat} {first : First}
    (isFirst : firsts[index]? = some first) :
    ∃ second, seconds[index]? = some second ∧ related first second := by
  induction pairs generalizing index with
  | nil => cases isFirst
  | cons pair _ ih =>
      cases index with
      | zero =>
          cases isFirst
          exact ⟨_, rfl, pair⟩
      | succ index => exact ih isFirst

theorem Matching.cases {Entry : Type} {related : Entry → Entry → Prop} {first second : Except Fault Entry}
    (matching : Matching related first second) :
    (∃ fault, first = .error fault ∧ second = .error fault) ∨
      ∃ entry other, first = .ok entry ∧ second = .ok other ∧ related entry other := by
  cases matching with
  | error fault => exact Or.inl ⟨fault, rfl, rfl⟩
  | ok found => exact Or.inr ⟨_, _, rfl, rfl, found⟩

namespace Relocated

variable {relocation : Relocation} {place moved : Path} {node other : Element}

theorem isMoved (pair : Relocated relocation place moved node other) : moved = relocation.move place := by
  have same := pair.steady [] (.here node)
  rw [List.append_nil, List.append_nil] at same
  exact same.symm

theorem child (pair : Relocated relocation place moved node other) (isOpen : node.isOpen = true)
    {index : Nat} {inner : Element} (isChild : node.elements[index]? = some inner) :
    ∃ otherInner, other.elements[index]? = some otherInner ∧
      Relocated relocation (place ++ [index]) (moved ++ [index]) inner otherInner := by
  rcases exists_of_forall₂ (pair.alike.elements isOpen) isChild with ⟨otherInner, isOther, alike⟩
  refine ⟨otherInner, isOther, alike, ?_⟩
  intro rest clear
  rw [List.append_assoc, List.append_assoc]
  exact pair.steady (index :: rest) (.descend isOpen isChild clear)

section

variable {position : Int} {index : Nat} (pair : Relocated relocation place moved node other)
  (isOpen : node.isOpen = true)
  (lands : ∀ found, place? node.elements.length position = some found → found = index)
include pair isOpen lands

theorem pick :
    (pick? node.elements position = none ∧ pick? other.elements position = none) ∨
      ∃ inner otherInner, pick? node.elements position = some inner ∧
        pick? other.elements position = some otherInner ∧
        Relocated relocation (place ++ [index]) (moved ++ [index]) inner otherInner := by
  simp only [pick?, pair.alike.count]
  cases isPlace : place? node.elements.length position with
  | none => exact Or.inl ⟨rfl, rfl⟩
  | some found =>
      cases lands found isPlace
      simp only [Option.bind_some]
      cases isChild : node.elements[index]? with
      | none =>
          left
          rw [List.getElem?_eq_none_iff] at isChild ⊢
          rw [pair.alike.count]
          exact ⟨rfl, isChild⟩
      | some inner =>
          right
          rcases pair.child isOpen isChild with ⟨otherInner, isOther, found⟩
          exact ⟨inner, otherInner, rfl, isOther, found⟩

/-- What stands at a position of an open element and of the one that resembles it. -/
theorem entry :
    Matching (Relocated relocation (place ++ [index]) (moved ++ [index])) (node.entry position)
      (other.entry position) := by
  have alike := pair.alike
  have picked := pair.pick isOpen lands
  cases alike with
  | refl =>
      cases node with
      | text value => cases isOpen
      | null | bool value | int value | float value => exact .error _
      | node elements | list elements =>
          simp only [Element.elements] at picked
          rcases picked with ⟨none, _⟩ | ⟨inner, otherInner, some, alsoSome, found⟩
          · simp only [Element.entry, none]
            exact .error _
          · cases some.symm.trans alsoSome
            simp only [Element.entry, some]
            exact .ok found
  | closed isClosed lengths | node kind each =>
      simp only [Element.elements] at picked
      rcases picked with ⟨none, alsoNone⟩ | ⟨inner, otherInner, some, alsoSome, found⟩
      · simp only [Element.entry, none, alsoNone]
        exact .error _
      · simp only [Element.entry, some, alsoSome]
        exact .ok found

end

/-- What stands at a position counted from the front. -/
theorem entry_front (pair : Relocated relocation place moved node other) (isOpen : node.isOpen = true)
    (index : Nat) :
    Matching (Relocated relocation (place ++ [index]) (moved ++ [index])) (node.entry index)
      (other.entry index) := by
  apply pair.entry isOpen
  intro found isPlace
  have isOffset := place_eq isPlace
  rw [if_neg (by omega)] at isOffset
  omega

theorem locate (pair : Relocated relocation place moved node other) {route : List Int}
    (opens : node.Opens route) :
    Matching (fun first second => Relocated relocation first.1 second.1 first.2 second.2)
      (Element.locate place node route) (Element.locate moved other route) := by
  induction route generalizing place moved node other with
  | nil => exact .ok pair
  | cons position rest ih =>
      rw [Opens] at opens
      have lands : ∀ found, place? node.elements.length position = some found →
          found = (place? node.elements.length position).getD 0 := by
        intro found isPlace
        rw [isPlace, Option.getD_some]
      have first := pair.entry opens.1 lands
      have further := opens.2
      unfold Element.locate
      rw [pair.alike.count]
      generalize node.entry position = next at first further
      generalize other.entry position = otherNext at first
      cases first with
      | error fault => exact .error fault
      | ok found => exact ih found (further _ rfl)

theorem follow (pair : Relocated relocation place moved node other) {route : List Int}
    (opens : node.Opens route) :
    Matching Resembles (node.follow route) (other.follow route) := by
  have located := pair.locate opens
  rw [follow_eq_locate place node, follow_eq_locate moved other]
  generalize Element.locate place node route = target at located
  generalize Element.locate moved other route = otherTarget at located
  cases located with
  | error fault => exact .error fault
  | ok found => exact .ok found.alike

/-! ## Questions -/

theorem asks_kind (pair : Relocated relocation place moved node other) {route : List Int}
    (opens : node.Opens route) (question : Element → Bool) :
    other.asks (route ++ [0]) question = node.asks (route ++ [0]) question := by
  have followed := pair.follow opens
  unfold Element.asks
  rw [follow_append, follow_append]
  generalize node.follow route = target at followed
  generalize other.follow route = otherTarget at followed
  cases followed with
  | error fault => rfl
  | @ok target otherTarget alike =>
      have kinds : otherTarget.entry 0 = target.entry 0 := alike.kind
      simp only [kinds]

theorem kindIs (pair : Relocated relocation place moved node other) {route : List Int}
    (opens : node.Opens route) (number : Nat) : other.kindIs route number = node.kindIs route number :=
  pair.asks_kind opens _

theorem kindIn (pair : Relocated relocation place moved node other) {route : List Int}
    (opens : node.Opens route) (numbers : List Nat) :
    other.kindIn route numbers = node.kindIn route numbers :=
  pair.asks_kind opens _

theorem asks_text (pair : Relocated relocation place moved node other) {route : List Int}
    (opens : node.Opens route) (texts : List String) :
    (other.asks route fun text => texts.any (text.isText ·)) =
      node.asks route fun text => texts.any (text.isText ·) := by
  apply (pair.follow opens).asks
  intro target otherTarget alike
  simp only [alike.isText]

theorem lengthIs (pair : Relocated relocation place moved node other) {route : List Int}
    (opens : node.Opens route) (question : Nat → Bool) :
    other.lengthIs route question = node.lengthIs route question := by
  have followed := pair.follow opens
  unfold Element.lengthIs
  generalize node.follow route = target at followed
  generalize other.follow route = otherTarget at followed
  cases followed with
  | error fault => rfl
  | ok alike => simp only [alike.length]

/-- Entries with the same positions, relative to a place and to the moved place. -/
def Entries (relocation : Relocation) (place moved : Path) :
    List (Nat × Element) → List (Nat × Element) → Prop :=
  List.Forall₂ fun entry other => other.1 = entry.1 ∧
    Relocated relocation (place ++ [entry.1]) (moved ++ [entry.1]) entry.2 other.2

theorem numbered (pair : Relocated relocation place moved node other) (isOpen : node.isOpen = true)
    (start : Nat) : Entries relocation place moved (node.numbered start) (other.numbered start) := by
  apply List.forall₂_iff_get.mpr
  constructor
  · simp [Element.numbered, pair.alike.count]
  · intro index inFirst inSecond
    simp only [Element.numbered, List.get_eq_getElem, List.getElem_map, List.getElem_drop,
      List.getElem_zipIdx, Nat.zero_add, true_and]
    simp only [Element.numbered, List.length_map, List.length_drop, List.length_zipIdx] at inFirst inSecond
    have inside : start + index < node.elements.length := by omega
    rcases pair.child isOpen (List.getElem?_eq_getElem inside) with ⟨otherInner, isOther, found⟩
    rw [List.getElem?_eq_getElem (by omega)] at isOther
    cases isOther
    exact found

end Relocated

end Element
end CrossRef
