import CrossRef.Proofs.Passage
import CrossRef.Proofs.Shape

/-!
# Finding one's way in a tree

A construct looks at the trees below it by routes, lists of positions that may count from the end.
Where a route leads to a tree, every question about that place has an answer: its kind, its length,
the path of the place.  These answers are all that the plans of constructs are worked out from.
-/

namespace CrossRef

namespace Tree

/-- The trees right below a tree. -/
def children : Tree → List Tree
  | .leaf .. => []
  | .branch _ children => children

/-- The number of elements that a tree arrives as. -/
def size : Tree → Nat
  | .leaf .. => 3
  | .branch _ children => children.length + 1

@[simp]
theorem size_branch (kind : Nat) (children : List Tree) :
    (branch kind children).size = children.length + 1 := rfl

/-- The tree at a position right below a tree. -/
def childAt? (tree : Tree) : Nat → Option Tree
  | 0 => none
  | position + 1 => tree.children[position]?

theorem allToElements_eq_map (trees : List Tree) : allToElements trees = trees.map toElement := by
  induction trees with
  | nil => rfl
  | cons first rest ih => rw [allToElements, ih, List.map_cons]

theorem toElement_branch (kind : Nat) (children : List Tree) :
    (branch kind children).toElement = .node (.int kind :: children.map toElement) := by
  rw [toElement, allToElements_eq_map]

theorem length_elements (tree : Tree) : tree.toElement.elements.length = tree.size := by
  cases tree with
  | leaf kind text line => rfl
  | branch kind children => simp [toElement_branch]

@[simp]
theorem kind_toElement (tree : Tree) : tree.toElement.kind = .ok (.int tree.kind) := by
  have place (length : Nat) : Element.place? (length + 1) 0 = some 0 := by
    simp [Element.place?]
  cases tree with
  | leaf kind text line => rfl
  | branch kind children =>
      simp [toElement_branch, Element.kind, Element.entry, Element.pick?, place, Tree.kind]

theorem length_toElement (tree : Tree) : tree.toElement.length = .ok tree.size := by
  cases tree with
  | leaf kind text line => rfl
  | branch kind children => simp [toElement_branch, Element.length]

/-- A route from a tree to one below it, and the places that it passes. -/
inductive Reaches : Tree → List Int → Path → Tree → Prop where
  | here (tree : Tree) : Reaches tree [] [] tree
  | descend {tree child target : Tree} {position : Int} {place : Nat} {route : List Int}
      {places : Path} (isPlace : Element.place? tree.size position = some place)
      (isChild : tree.childAt? place = some child) (reaches : Reaches child route places target) :
      Reaches tree (position :: route) (place :: places) target

theorem entry_of_childAt {tree child : Tree} {position : Int} {place : Nat}
    (isPlace : Element.place? tree.size position = some place)
    (isChild : tree.childAt? place = some child) :
    tree.toElement.entry position = .ok child.toElement := by
  cases tree with
  | leaf kind text line =>
      cases place with
      | zero => cases isChild
      | succ place => simp [childAt?, children] at isChild
  | branch kind trees =>
      cases place with
      | zero => cases isChild
      | succ place =>
          simp only [childAt?, children] at isChild
          simp only [size] at isPlace
          simp [toElement_branch, Element.entry, Element.pick?, isPlace, isChild]

variable {tree target : Tree} {route : List Int} {places : Path}

theorem Reaches.follow (reaches : Reaches tree route places target) (rest : List Int) :
    tree.toElement.follow (route ++ rest) = target.toElement.follow rest := by
  induction reaches with
  | here tree => rfl
  | descend isPlace isChild reaches ih =>
      rw [List.cons_append, Element.follow, entry_of_childAt isPlace isChild]
      exact ih

theorem Reaches.follow_eq (reaches : Reaches tree route places target) :
    tree.toElement.follow route = .ok target.toElement := by
  have followed := reaches.follow []
  rw [List.append_nil] at followed
  exact followed

/-- The kind of what a route leads to. -/
theorem Reaches.follow_kind (reaches : Reaches tree route places target) :
    tree.toElement.follow (route ++ [0]) = .ok (.int target.kind) := by
  rw [reaches.follow, Element.follow]
  have kind := target.kind_toElement
  unfold Element.kind at kind
  rw [kind]
  rfl

theorem isNumber_kind (tree : Tree) (number : Nat) :
    (Element.int tree.kind).isNumber number = tree.isOf number :=
  rfl

theorem isNumberIn_kind (tree : Tree) (numbers : List Nat) :
    (Element.int tree.kind).isNumberIn numbers = tree.isOneOf numbers :=
  rfl

theorem Reaches.kindIs (reaches : Reaches tree route places target) (number : Nat) :
    tree.toElement.kindIs route number = .ok (target.isOf number) := by
  simp [Element.kindIs, Element.asks, reaches.follow_kind, isNumber_kind]

theorem Reaches.kindIn (reaches : Reaches tree route places target) (numbers : List Nat) :
    tree.toElement.kindIn route numbers = .ok (target.isOneOf numbers) := by
  simp [Element.kindIn, Element.asks, reaches.follow_kind, isNumberIn_kind]

/-- A question about the text of a terminal. -/
theorem Reaches.asks_text {kind : Int} {text : String} {line : Int}
    (reaches : Reaches tree route places (.leaf kind text line)) (question : Element → Bool) :
    tree.toElement.asks (route ++ [1]) question = .ok (question (.text text)) := by
  rw [Element.asks, reaches.follow]
  simp [Element.follow, toElement, Element.entry, Element.pick?, Element.place?]

theorem Reaches.lengthIs (reaches : Reaches tree route places target) (question : Nat → Bool) :
    tree.toElement.lengthIs route question = .ok (question target.size) := by
  simp [Element.lengthIs, reaches.follow_eq, length_toElement]

theorem Reaches.locate (reaches : Reaches tree route places target) (path : Path) :
    Element.locate path tree.toElement route = .ok (path ++ places, target.toElement) := by
  induction reaches generalizing path with
  | here tree => simp [Element.locate]
  | descend isPlace isChild reaches ih =>
      rw [Element.locate, entry_of_childAt isPlace isChild]
      simp only [length_elements, isPlace, Option.getD_some, ih, List.append_assoc,
        List.singleton_append]

theorem place_of_lt {size place : Nat} (inside : place < size) :
    Element.place? size (place : Int) = some place := by
  unfold Element.place?
  have notNegative : ¬ (place : Int) < 0 := by omega
  simp only [if_neg notNegative]
  simp [inside]

theorem place_from_end {size back : Nat} (positive : 0 < back) (inside : back ≤ size) :
    Element.place? size (-(back : Int)) = some (size - back) := by
  unfold Element.place?
  have negative : (-(back : Int)) < 0 := by omega
  simp only [if_pos negative]
  have bounds : 0 ≤ -(back : Int) + size ∧ -(back : Int) + size < size := by omega
  simp only [bounds, decide_true, Bool.and_self, if_true, Option.some.injEq]
  omega

theorem childAt?_lt {place : Nat} {child : Tree} (isChild : tree.childAt? place = some child) :
    place < tree.size := by
  cases place with
  | zero => cases isChild
  | succ place =>
      simp only [childAt?] at isChild
      have inside := (List.getElem?_eq_some_iff.mp isChild).1
      cases tree with
      | leaf kind text line => simp [children] at inside
      | branch kind trees =>
          simp only [children, size] at inside ⊢
          omega

/-- A position counted from the front. -/
theorem Reaches.front {child : Tree} {place : Nat} (isChild : tree.childAt? place = some child)
    (reaches : Reaches child route places target) :
    Reaches tree ((place : Int) :: route) (place :: places) target :=
  .descend (place_of_lt (childAt?_lt isChild)) isChild reaches

/-- A position counted from the end. -/
theorem Reaches.back {child : Tree} {back : Nat} (positive : 0 < back) (inside : back ≤ tree.size)
    (isChild : tree.childAt? (tree.size - back) = some child)
    (reaches : Reaches child route places target) :
    Reaches tree (-(back : Int) :: route) ((tree.size - back) :: places) target :=
  .descend (place_from_end positive inside) isChild reaches

/-- Trees with their positions, as they arrive. -/
def positioned (start : Nat) : List Tree → List (Nat × Element)
  | [] => []
  | tree :: rest => (start, tree.toElement) :: positioned (start + 1) rest

theorem positioned_eq_zipIdx (start : Nat) (trees : List Tree) :
    positioned start trees = ((trees.map toElement).zipIdx start).map fun (child, position) =>
      (position, child) := by
  induction trees generalizing start with
  | nil => rfl
  | cons tree rest ih => simp [positioned, ih, List.zipIdx_cons]

theorem drop_positioned (start skipped : Nat) (trees : List Tree) :
    (positioned start trees).drop skipped = positioned (start + skipped) (trees.drop skipped) := by
  induction skipped generalizing start trees with
  | zero => rfl
  | succ skipped ih =>
      cases trees with
      | nil => rfl
      | cons tree rest =>
          rw [positioned, List.drop_succ_cons, List.drop_succ_cons, ih]
          congr 1
          omega

theorem numbered_branch (kind skipped : Nat) (children : List Tree) :
    (branch kind children).toElement.numbered (skipped + 1) =
      positioned (skipped + 1) (children.drop skipped) := by
  have start : skipped + 1 = 1 + skipped := Nat.add_comm skipped 1
  rw [start, ← drop_positioned, positioned_eq_zipIdx, ← start, Element.numbered, toElement_branch]
  simp [List.zipIdx_cons]

theorem dropLast_positioned (start : Nat) (trees : List Tree) :
    (positioned start trees).dropLast = positioned start trees.dropLast := by
  induction trees generalizing start with
  | nil => rfl
  | cons tree rest ih =>
      cases rest with
      | nil => rfl
      | cons second rest =>
          simp only [positioned, List.dropLast_cons_cons] at ih ⊢
          rw [← ih]

theorem markable_of_isName {tree : Tree} (isName : tree.isOf Kind.name = true) :
    tree.isOneOf Grammar.version3.markable = true := by
  simp [isOneOf, Grammar.version3, isName]

theorem kindIs_self (tree : Tree) (number : Nat) :
    tree.toElement.kindIs [] number = .ok (tree.isOf number) :=
  (Reaches.here tree).kindIs number

/-- The child at a position, counted from the front. -/
theorem reaches_child {kind : Nat} {children : List Tree} {child : Tree} (index : Nat)
    (isChild : children[index]? = some child) :
    Reaches (branch kind children) [((index + 1 : Nat) : Int)] [index + 1] child :=
  .front isChild (.here child)

/-- A route through the child at a position, counted from the front. -/
theorem reaches_through {kind : Nat} {children : List Tree} {child target : Tree} {route : List Int}
    {places : Path} (index : Nat) (isChild : children[index]? = some child)
    (reaches : Reaches child route places target) :
    Reaches (branch kind children) (((index + 1 : Nat) : Int) :: route) ((index + 1) :: places)
      target :=
  .front isChild reaches

theorem entry_child {kind : Nat} {children : List Tree} {child : Tree} (index : Nat)
    (isChild : children[index]? = some child) :
    (branch kind children).toElement.entry ((index + 1 : Nat) : Int) = .ok child.toElement :=
  have isPlace : (branch kind children).childAt? (index + 1) = some child := isChild
  entry_of_childAt (place_of_lt (childAt?_lt isPlace)) isPlace

/-- The child at a position, counted from the end. -/
theorem reaches_back {kind : Nat} {children : List Tree} {index : Nat} {child : Tree} (back : Nat)
    (positive : 0 < back) (count : children.length = index + back)
    (isChild : children[index]? = some child) :
    Reaches (branch kind children) [-(back : Int)] [index + 1] child := by
  have place : (branch kind children).size - back = index + 1 := by
    simp only [size]
    omega
  have isPlace : (branch kind children).childAt? ((branch kind children).size - back) =
      some child := by
    rw [place]
    exact isChild
  have reaches := Reaches.back positive (by simp only [size]; omega) isPlace (.here child)
  rw [place] at reaches
  exact reaches

end Tree

namespace Element

@[simp]
theorem kind_node (kind : Element) (rest : List Element) : (node (kind :: rest)).kind = .ok kind := by
  have place : place? (kind :: rest).length 0 = some 0 := by simp [place?]
  simp only [Element.kind, entry, pick?, place]
  rfl

@[simp]
theorem isOfKind_node (kind : Int) (rest : List Element) (number : Nat) :
    (node (.int kind :: rest)).isOfKind number = decide (kind = number) := by
  simp [isOfKind, isNumber]

/-- A question about the kind of an element itself. -/
theorem asks_zero (element : Element) (question : Element → Bool) :
    element.asks [0] question =
      match element.kind with
      | .ok kind => .ok (question kind)
      | .error fault => .error fault := by
  unfold Element.asks Element.kind
  rw [Element.follow]
  cases element.entry 0 <;> rfl

theorem kindIs_nil (element : Element) (number : Nat) :
    element.kindIs [] number =
      match element.kind with
      | .ok kind => .ok (kind.isNumber number)
      | .error fault => .error fault :=
  element.asks_zero _

theorem kindIn_nil (element : Element) (numbers : List Nat) :
    element.kindIn [] numbers =
      match element.kind with
      | .ok kind => .ok (kind.isNumberIn numbers)
      | .error fault => .error fault :=
  element.asks_zero _

@[simp]
theorem kindIs_nil_eq_true {element : Element} {number : Nat} :
    element.kindIs [] number = .ok true ↔ element.isOfKind number = true := by
  rw [kindIs_nil]
  unfold isOfKind
  cases element.kind with
  | error fault => simp
  | ok kind => simp

theorem entry_of_place {node child : Element} {position : Int} {place : Nat}
    (isPlace : place? node.elements.length position = some place)
    (isChild : node.elements[place]? = some child) : node.entry position = .ok child := by
  cases node with
  | node elements | list elements =>
      simp only [Element.elements] at isPlace isChild
      simp [entry, pick?, isPlace, isChild]
  | null | bool | int | float | text => simp [Element.elements] at isChild

/-- An entry counted from the front. -/
theorem entry_of_getElem? {node child : Element} (index : Nat)
    (isChild : node.elements[index]? = some child) : node.entry index = .ok child :=
  entry_of_place (Tree.place_of_lt (List.getElem?_eq_some_iff.mp isChild).1) isChild

/-- An entry counted from the end. -/
theorem entry_back (front : List Element) (child : Element) (behind : List Element) :
    (node (front ++ child :: behind)).entry (-((behind.length + 1 : Nat) : Int)) = .ok child := by
  have inside : behind.length + 1 ≤ (front ++ child :: behind).length := by simp
  have place : (front ++ child :: behind).length - (behind.length + 1) = front.length := by simp
  have found := Tree.place_from_end (Nat.succ_pos behind.length) inside
  rw [place] at found
  exact entry_of_place found (by simp)

section

variable {element child : Element} {position : Int} (isChild : element.entry position = .ok child)
include isChild

/-- What is asked about a place below an entry is asked of the entry. -/
theorem kindIs_of_entry (route : List Int) (number : Nat) :
    element.kindIs (position :: route) number = child.kindIs route number := by
  simp only [Element.kindIs, Element.asks, List.cons_append, Element.follow, isChild]

theorem kindIn_of_entry (route : List Int) (numbers : List Nat) :
    element.kindIn (position :: route) numbers = child.kindIn route numbers := by
  simp only [Element.kindIn, Element.asks, List.cons_append, Element.follow, isChild]

theorem lengthIs_of_entry (route : List Int) (question : Nat → Bool) :
    element.lengthIs (position :: route) question = child.lengthIs route question := by
  simp only [Element.lengthIs, Element.follow, isChild]

end

end Element

end CrossRef
