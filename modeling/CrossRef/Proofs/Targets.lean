import CrossRef.Proofs.Lookahead
import CrossRef.Proofs.Navigation
import CrossRef.Proofs.Places

/-!
# The targets of an assignment

On the left of every sign of equality of an assignment stands a list of targets.  A target is a
primary, or it is a list of further targets in brackets, to any depth.  The name that is assigned to
is the primary itself if it is a name, with at most one subscript, or else the attribute that the
primary ends in, with at most one subscript behind it; any other primary assigns to no name.  Where
stars are allowed one may stand in front of any target; brackets assign to their members only up to
the first star.

An assignment is given here as a tree of its own, from which both the elements that it arrives as and
the places of the names that it assigns to are worked out.
-/

namespace CrossRef

namespace Element

/-- A node of the given kind. -/
def ofKind (kind : Nat) (parts : List Element) : Element :=
  .node (.int kind :: parts)

@[simp]
theorem isOfKind_ofKind (kind : Nat) (parts : List Element) (number : Nat) :
    (ofKind kind parts).isOfKind number = decide (kind = number) := by
  rw [ofKind, isOfKind_node, decide_eq_decide]
  omega

theorem preorder_ofKind (path : Path) (kind : Nat) (parts : List Element) :
    (ofKind kind parts).preorder path = (path, ofKind kind parts) :: preorderFrom path 1 parts := by
  rw [ofKind, preorder]

theorem preorderFrom_ofKind (path : Path) (position kind : Nat) (parts rest : List Element) :
    preorderFrom path position (ofKind kind parts :: rest) =
      (ofKind kind parts).preorder (path ++ [position]) ++ preorderFrom path (position + 1) rest := by
  rw [ofKind, preorderFrom]

/-- A node two levels below another. -/
theorem mem_preorderFrom_ofKind {parts inner more : List Element} {outer kind : Nat}
    (index place : Nat) (isPart : parts[index]? = some (ofKind outer inner))
    (isInner : inner[place]? = some (ofKind kind more)) (path : Path) :
    (path ++ [index + 1, place + 1], ofKind kind more) ∈ preorderFrom path 1 parts := by
  apply mem_preorderFrom.mpr ⟨index, _, isPart, _⟩
  have reached : path ++ [index + 1, place + 1] = path ++ [1 + index] ++ [1 + place] := by
    simp [Nat.add_comm]
  rw [reached]
  apply List.mem_cons_of_mem
  exact mem_preorderFrom.mpr ⟨place, _, isInner, self_mem_preorder _ _⟩

mutual

/-- Which nodes a tree has does not depend on where it stands. -/
theorem preorder_nodes (path other : Path) : ∀ tree : Element,
    (tree.preorder path).map Prod.snd = (tree.preorder other).map Prod.snd
  | .node (kind :: rest) | .list (kind :: rest) => by
      simp [preorder, preorderFrom_nodes path other 1 1 rest]
  | .node [] | .list [] | .null | .bool _ | .int _ | .float _ | .text _ => by
      simp [preorder]

theorem preorderFrom_nodes (path other : Path) (position start : Nat) : ∀ elements : List Element,
    (preorderFrom path position elements).map Prod.snd =
      (preorderFrom other start elements).map Prod.snd
  | [] => rfl
  | .node inner :: rest => by
      simp [preorderFrom, preorder_nodes (path ++ [position]) (other ++ [start]) (.node inner),
        preorderFrom_nodes path other (position + 1) (start + 1) rest]
  | .list _ :: rest | .null :: rest | .bool _ :: rest | .int _ :: rest | .float _ :: rest
  | .text _ :: rest => by
      simp [preorderFrom, preorderFrom_nodes path other (position + 1) (start + 1) rest]

end

/-- Whether no statement that could assign stands anywhere in a tree. -/
def isExpression (tree : Element) : Bool :=
  (tree.preorder []).all fun entry => !entry.2.isOfKind Grammar.version3.expressionStatement

theorem isExpression_iff {tree : Element} (path : Path) :
    tree.isExpression = true ↔ ∀ entry ∈ tree.preorder path,
      entry.2.isOfKind Grammar.version3.expressionStatement = false := by
  have nodes : (∀ node ∈ (tree.preorder []).map Prod.snd,
        node.isOfKind Grammar.version3.expressionStatement = false) ↔
      ∀ node ∈ (tree.preorder path).map Prod.snd,
        node.isOfKind Grammar.version3.expressionStatement = false := by
    rw [preorder_nodes [] path]
  simp only [List.forall_mem_map] at nodes
  rw [← nodes]
  simp [isExpression]

/-- No statement stands anywhere in expressions. -/
theorem no_statement_of_expressions {parts : List Element}
    (expressions : ∀ part ∈ parts, part.isExpression = true) (path : Path) (position : Nat) :
    ∀ entry ∈ preorderFrom path position parts,
      entry.2.isOfKind Grammar.version3.expressionStatement = false := by
  intro entry member
  rcases mem_preorderFrom.mp member with ⟨index, inner, isPart, inPart⟩
  exact (isExpression_iff _).mp (expressions _ (List.mem_of_getElem? isPart)) entry inPart

theorem isExpression_ofKind {kind : Nat} {parts : List Element}
    (noStatement : kind ≠ Grammar.version3.expressionStatement)
    (expressions : ∀ part ∈ parts, part.isExpression = true) :
    (ofKind kind parts).isExpression = true := by
  rw [isExpression_iff [], preorder_ofKind, List.forall_mem_cons]
  exact ⟨by simp [noStatement], no_statement_of_expressions expressions [] 1⟩

end Element

namespace Assignment

/-- A terminal: its text, its line and whatever positions follow. -/
structure Token where
  text : String
  line : Int
  positions : List Int := []

/-- A tree that assigns nothing. -/
structure Expression where
  tree : Element
  isExpression : tree.isExpression = true

/-- A construct that a walk passes without looking at it. -/
structure Link where
  kind : Nat
  isConstruct : Kind.firstConstruct ≤ kind
  unnoticed : Grammar.version3.constructOf (.int kind) = .other

def Token.toElement (kind : Nat) (token : Token) : Element :=
  .ofKind kind (.text token.text :: .int token.line :: token.positions.map .int)

/-- The node of a construct that a walk passes, with one node below it. -/
def wrap (links : List Link) (inner : Element) : Element :=
  links.foldr (fun link below => .ofKind link.kind [below]) inner

/-- The way down through such constructs. -/
def descent (links : List Link) : Path :=
  links.map fun _ => 1

/-! ## Primaries -/

/-- What can follow in a primary. -/
inductive Trailer where
  | dotted (dot name : Token)
  | subscript (opening closing : Token) (first : Expression) (others : List Expression)
  | call (opening closing : Token) (arguments : List Expression)

namespace Trailer

def parts : Trailer → List Element
  | .dotted dot name => [dot.toElement Kind.dot, name.toElement Kind.name]
  | .subscript opening closing first others =>
    opening.toElement Kind.leftBracket :: first.tree ::
      (others.map Expression.tree ++ [closing.toElement Kind.rightBracket])
  | .call opening closing arguments =>
    opening.toElement Kind.leftParenthesis ::
      (arguments.map Expression.tree ++ [closing.toElement Kind.rightParenthesis])

def toElement (trailer : Trailer) : Element :=
  .ofKind Grammar.version3.trailer trailer.parts

end Trailer

/-- What a primary starts with. -/
inductive Atom where
  | name (token : Token)
  | other (parts : List Expression)
      (unnamed : ∀ part, parts = [part] → part.tree.isOfKind Kind.name = false)

namespace Atom

def parts : Atom → List Element
  | .name token => [token.toElement Kind.name]
  | .other parts _ => parts.map Expression.tree

def toElement (atom : Atom) : Element :=
  .ofKind Grammar.version3.atom atom.parts

/-- A name, with its place in a primary that starts with it. -/
def leaf? : Atom → Option (Path × Token)
  | .name token => some ([1, 1], token)
  | .other .. => none

end Atom

/-- Whether the parts of an atom are a list in brackets. -/
def isBracketed : List Element → Bool
  | [opening, members, closing] =>
    opening.isOfKindIn [Kind.leftParenthesis, Kind.leftBracket] &&
      members.isOfKindIn Grammar.version3.bracketed &&
      closing.isOfKindIn [Kind.rightParenthesis, Kind.rightBracket]
  | _ => false

/-- A primary; a list in brackets counts as one only if something follows it. -/
structure Primary where
  atom : Atom
  trailers : List Trailer
  single : trailers = [] → isBracketed atom.parts = false

namespace Primary

def toElement (primary : Primary) : Element :=
  .ofKind Grammar.version3.power (primary.atom.toElement :: primary.trailers.map Trailer.toElement)

/-- The name that a primary assigns to, with its place. -/
def leaf? (primary : Primary) : Option (Path × Token) :=
  match primary.trailers.reverse with
  | [] => primary.atom.leaf?
  | .dotted _ name :: earlier => some ([earlier.length + 2, 2], name)
  | [.subscript ..] => primary.atom.leaf?
  | .subscript .. :: .dotted _ name :: earlier => some ([earlier.length + 2, 2], name)
  | _ => none

end Primary

/-! ## Targets -/

inductive Brackets where
  | round
  | square

def Brackets.opening : Brackets → Nat
  | .round => Kind.leftParenthesis
  | .square => Kind.leftBracket

def Brackets.closing : Brackets → Nat
  | .round => Kind.rightParenthesis
  | .square => Kind.rightBracket

/-- The kind of a target with a star in front of it. -/
def starKind : Nat := 311

/-- The kind of the star. -/
def starToken : Nat := 16

mutual

/-- What is assigned to; `stars` says whether a star may stand in front of targets in a list. -/
inductive Target (stars : Bool) where
  | primary (primary : Primary)
  | bracketed (brackets : Brackets) (opening closing : Token) (members : Members stars)

/-- A target as it stands in a list. -/
inductive Member (stars : Bool) where
  | plain (links : List Link) (target : Target stars)
  | starred (allowed : stars = true) (star : Token) (links : List Link) (target : Target stars)

/-- Members with commas between them, and possibly one behind the last. -/
inductive Members (stars : Bool) where
  | last (member : Member stars)
  | trailing (member : Member stars) (comma : Token)
  | cons (member : Member stars) (comma : Token) (rest : Members stars)

end

variable {stars : Bool}

mutual

def Target.toElement : Target stars → Element
  | .primary primary => primary.toElement
  | .bracketed brackets opening closing members =>
    .ofKind Grammar.version3.power
      [.ofKind Grammar.version3.atom
        [opening.toElement brackets.opening, .ofKind Kind.members members.elements,
         closing.toElement brackets.closing]]

def Member.toElement : Member stars → Element
  | .plain links target => .ofKind Grammar.version3.test [wrap links target.toElement]
  | .starred _ star links target =>
    .ofKind starKind [star.toElement starToken, wrap links target.toElement]

def Members.elements : Members stars → List Element
  | .last member => [member.toElement]
  | .trailing member comma => [member.toElement, comma.toElement Kind.comma]
  | .cons member comma rest => member.toElement :: comma.toElement Kind.comma :: rest.elements

end

def Member.isStarred : Member stars → Bool
  | .plain .. => false
  | .starred .. => true

mutual

/-- The ways from a target to the names that it assigns to. -/
def Target.ways : Target stars → List Path
  | .primary primary => (primary.leaf?.map Prod.fst).toList
  | .bracketed _ _ _ members => (members.ways false 1).map fun way => [1, 2] ++ way

def Member.ways : Member stars → List Path
  | .plain links target => target.ways.map fun way => [1] ++ descent links ++ way
  | .starred _ _ links target => target.ways.map fun way => [2] ++ descent links ++ way

/-- The ways from a list to the names that its members assign to, if stars are taken, or that those up
to the first star assign to; `position` is the place of the first member. -/
def Members.ways (taken : Bool) (position : Nat) : Members stars → List Path
  | .last member | .trailing member _ =>
    if member.isStarred && !taken then [] else member.ways.map fun way => [position] ++ way
  | .cons member _ rest =>
    if member.isStarred && !taken then []
    else (member.ways.map fun way => [position] ++ way) ++ rest.ways taken (position + 2)

end

/-- The places of the members of a list that are awaited, up to the first star if stars are not
taken. -/
def Members.places (taken : Bool) (path : Path) (position : Nat) : Members stars → List Path
  | .last member | .trailing member _ =>
    if member.isStarred && !taken then [] else [path ++ [position]]
  | .cons member _ rest =>
    if member.isStarred && !taken then []
    else (path ++ [position]) :: rest.places taken path (position + 2)

/-- A list of targets on the left of a sign of equality. -/
def Members.toElement (members : Members stars) : Element :=
  .ofKind Grammar.version3.targetList members.elements

end Assignment

open Assignment in
/-- An assignment of a value to one or several lists of targets. -/
inductive Assignment (stars : Bool) where
  | last (targets : Members stars) (equal : Token) (value : Expression)
  | cons (targets : Members stars) (equal : Token) (rest : Assignment stars)

namespace Assignment

variable {stars : Bool}

def elements : Assignment stars → List Element
  | .last targets equal value => [targets.toElement, equal.toElement Kind.equal, value.tree]
  | .cons targets equal rest => targets.toElement :: equal.toElement Kind.equal :: rest.elements

def toElement (assignment : Assignment stars) : Element :=
  .ofKind Grammar.version3.expressionStatement assignment.elements

/-- The ways from an assignment to the names that its lists assign to; `position` is the place of the
first list. -/
def ways (position : Nat) : Assignment stars → List Path
  | .last targets _ _ => (targets.ways true 1).map fun way => [position] ++ way
  | .cons targets _ rest =>
    ((targets.ways true 1).map fun way => [position] ++ way) ++ rest.ways (position + 2)

/-- The places of the names that an assignment at a path assigns to. -/
def leaves (path : Path) (assignment : Assignment stars) : List Path :=
  (assignment.ways 1).map (path ++ ·)

/-- The places of the targets in the lists below a path. -/
def places (path : Path) (position : Nat) : Assignment stars → List Path
  | .last targets _ _ => targets.places true (path ++ [position]) 1
  | .cons targets _ rest =>
    targets.places true (path ++ [position]) 1 ++ rest.places path (position + 2)

theorem Token.isExpression {kind : Nat} (isTerminal : kind < Kind.firstConstruct) (token : Token) :
    (token.toElement kind).isExpression = true := by
  apply Element.isExpression_ofKind
  · simp only [Kind.firstConstruct, Grammar.version3] at isTerminal ⊢
    omega
  · intro part member
    simp only [List.mem_cons, List.mem_map] at member
    rcases member with rfl | rfl | ⟨position, _, rfl⟩
    · simp [Element.isExpression, Element.preorder]
    · rfl
    · rfl

theorem Token.preorder (kind : Nat) (token : Token) (path : Path) :
    (token.toElement kind).preorder path = [(path, token.toElement kind)] := by
  rw [Token.toElement, Element.preorder_ofKind]
  congr 1
  apply List.eq_nil_iff_forall_not_mem.mpr
  intro entry member
  rcases Element.mem_preorderFrom.mp member with ⟨index, inner, isPart, _⟩
  have isPart := List.mem_of_getElem? isPart
  simp at isPart

theorem exists_wrap (links : List Link) (kind : Nat) (parts : List Element) :
    ∃ outer inner, wrap links (.ofKind kind parts) = .ofKind outer inner := by
  cases links with
  | nil => exact ⟨kind, parts, rfl⟩
  | cons link links => exact ⟨link.kind, _, rfl⟩

theorem Target.exists_parts (target : Target stars) :
    ∃ parts, target.toElement = .ofKind Grammar.version3.power parts := by
  cases target with
  | primary primary => exact ⟨_, by rw [Target.toElement, Primary.toElement]⟩
  | bracketed brackets opening closing members => exact ⟨_, by rw [Target.toElement]⟩

def Member.kind : Member stars → Nat
  | .plain .. => Grammar.version3.test
  | .starred .. => starKind

theorem Member.exists_parts (member : Member stars) :
    ∃ parts, member.toElement = .ofKind member.kind parts := by
  cases member with
  | plain links target => exact ⟨_, by rw [toElement, kind]⟩
  | starred allowed star links target => exact ⟨_, by rw [toElement, kind]⟩

theorem Member.preorderFrom (member : Member stars) (path : Path) (position : Nat)
    (rest : List Element) :
    Element.preorderFrom path position (member.toElement :: rest) =
      member.toElement.preorder (path ++ [position]) ++
        Element.preorderFrom path (position + 1) rest := by
  rcases member.exists_parts with ⟨parts, isKind⟩
  rw [isKind, Element.preorderFrom_ofKind]

theorem Members.preorderFrom (members : Members stars) (path : Path) (position : Nat)
    (rest : List Element) :
    Element.preorderFrom path position (members.toElement :: rest) =
      members.toElement.preorder (path ++ [position]) ++
        Element.preorderFrom path (position + 1) rest := by
  rw [Members.toElement, Element.preorderFrom_ofKind]

theorem Token.preorderFrom (kind : Nat) (token : Token) (path : Path) (position : Nat)
    (rest : List Element) :
    Element.preorderFrom path position (token.toElement kind :: rest) =
      (path ++ [position], token.toElement kind) :: Element.preorderFrom path (position + 1) rest := by
  have split := Element.preorderFrom_ofKind path position kind
    (.text token.text :: .int token.line :: token.positions.map .int) rest
  have alone := token.preorder kind (path ++ [position])
  rw [Token.toElement] at alone ⊢
  rw [split, alone]
  rfl

theorem Trailer.isExpression (trailer : Trailer) : trailer.toElement.isExpression = true := by
  apply Element.isExpression_ofKind (by decide)
  intro part member
  cases trailer with
  | dotted dot name =>
      simp only [parts, List.mem_cons, List.not_mem_nil, or_false] at member
      rcases member with rfl | rfl <;> exact Token.isExpression (by decide) _
  | subscript opening closing first others =>
      simp only [parts, List.mem_cons, List.mem_append, List.mem_map, List.not_mem_nil,
        or_false] at member
      rcases member with rfl | rfl | ⟨other, _, rfl⟩ | rfl
      · exact Token.isExpression (by decide) _
      · exact first.isExpression
      · exact other.isExpression
      · exact Token.isExpression (by decide) _
  | call opening closing arguments =>
      simp only [parts, List.mem_cons, List.mem_append, List.mem_map, List.not_mem_nil,
        or_false] at member
      rcases member with rfl | ⟨other, _, rfl⟩ | rfl
      · exact Token.isExpression (by decide) _
      · exact other.isExpression
      · exact Token.isExpression (by decide) _

theorem Atom.isExpression (atom : Atom) : atom.toElement.isExpression = true := by
  apply Element.isExpression_ofKind (by decide)
  intro part member
  cases atom with
  | name token =>
      rw [List.mem_singleton.mp member]
      exact Token.isExpression (by decide) token
  | other parts unnamed =>
      rcases List.mem_map.mp member with ⟨other, _, rfl⟩
      exact other.isExpression

theorem isExpression_wrap (links : List Link) {inner : Element} (isExpression : inner.isExpression = true) :
    (wrap links inner).isExpression = true := by
  induction links with
  | nil => exact isExpression
  | cons link links ih =>
      have noStatement : link.kind ≠ Grammar.version3.expressionStatement := by
        intro same
        have unnoticed := link.unnoticed
        rw [same] at unnoticed
        cases unnoticed
      apply Element.isExpression_ofKind noStatement
      intro part member
      rw [List.mem_singleton.mp member]
      exact ih

theorem Primary.isExpression_parts (primary : Primary) :
    ∀ part ∈ primary.atom.toElement :: primary.trailers.map Trailer.toElement,
      part.isExpression = true := by
  rw [List.forall_mem_cons, List.forall_mem_map]
  exact ⟨primary.atom.isExpression, fun trailer _ => trailer.isExpression⟩

mutual

theorem Target.isExpression : ∀ target : Target stars, target.toElement.isExpression = true
  | .primary primary => by
      rw [Target.toElement]
      exact Element.isExpression_ofKind (by decide) primary.isExpression_parts
  | .bracketed brackets opening closing members => by
      rw [Target.toElement]
      have ofMembers : (Element.ofKind Kind.members members.elements).isExpression = true :=
        Element.isExpression_ofKind (by decide) members.isExpression
      have isTerminal : brackets.opening < Kind.firstConstruct ∧
          brackets.closing < Kind.firstConstruct := by
        cases brackets <;> decide
      apply Element.isExpression_ofKind (by decide)
      intro atom isAtom
      rw [List.mem_singleton.mp isAtom]
      apply Element.isExpression_ofKind (by decide)
      intro part member
      simp only [List.mem_cons, List.not_mem_nil, or_false] at member
      rcases member with rfl | rfl | rfl
      · exact opening.isExpression isTerminal.1
      · exact ofMembers
      · exact closing.isExpression isTerminal.2

theorem Member.isExpression : ∀ member : Member stars, member.toElement.isExpression = true
  | .plain links target => by
      rw [Member.toElement]
      apply Element.isExpression_ofKind (by decide)
      intro part member
      rw [List.mem_singleton.mp member]
      exact isExpression_wrap links target.isExpression
  | .starred _ star links target => by
      rw [Member.toElement]
      apply Element.isExpression_ofKind (by decide)
      intro part member
      simp only [List.mem_cons, List.not_mem_nil, or_false] at member
      rcases member with rfl | rfl
      · exact star.isExpression (by decide)
      · exact isExpression_wrap links target.isExpression

theorem Members.isExpression : ∀ members : Members stars,
    ∀ part ∈ members.elements, part.isExpression = true
  | .last member => by
      rw [Members.elements, List.forall_mem_singleton]
      exact member.isExpression
  | .trailing member comma => by
      rw [Members.elements, List.forall_mem_cons, List.forall_mem_singleton]
      exact ⟨member.isExpression, comma.isExpression (by decide)⟩
  | .cons member comma rest => by
      rw [Members.elements, List.forall_mem_cons, List.forall_mem_cons]
      exact ⟨member.isExpression, comma.isExpression (by decide), rest.isExpression⟩

end

end Assignment

end CrossRef
