import CrossRef.Walk.Preorder

/-!
# Well-shaped trees

The trees that a reader of sources builds are of one sort throughout: a terminal is a kind, a text
and a line, and everything else is a construct with trees below it.  `Tree` is that sort, and
`Tree.toElement` says how it arrives.  A tree is well shaped if its constructs follow the
productions that a walk relies on, if no two symbols meet on a line, and if the end of the source is
the last of its terminals.
-/

namespace CrossRef

namespace Kind

/-- A module with the name it is imported as. -/
def importedName : Nat := 286

/-- The members of a list between brackets. -/
def members : Nat := 321

end Kind

/-- A syntax tree. -/
inductive Tree where
  | leaf (kind : Int) (text : String) (line : Int)
  | branch (kind : Nat) (children : List Tree)

namespace Tree

/-- Induction over trees: what holds of a construct if it holds of all trees right below it, holds
of every tree. -/
theorem induction {motive : Tree → Prop}
    (leaf : ∀ kind text line, motive (.leaf kind text line))
    (branch : ∀ kind children, (∀ child ∈ children, motive child) → motive (.branch kind children))
    (tree : Tree) : motive tree := by
  refine @Tree.rec motive (fun trees => ∀ child ∈ trees, motive child) leaf branch ?_ ?_ tree
  · intro child member
    cases member
  · intro first rest ofFirst ofRest child member
    rcases List.mem_cons.mp member with rfl | inRest
    · exact ofFirst
    · exact ofRest child inRest

mutual

/-- How a tree arrives. -/
def toElement : Tree → Element
  | .leaf kind text line => .node [.int kind, .text text, .int line]
  | .branch kind children => .node (.int kind :: allToElements children)

/-- How some trees arrive. -/
def allToElements : List Tree → List Element
  | [] => []
  | child :: rest => child.toElement :: allToElements rest

end

mutual

/-- A tree and all trees below it. -/
def subtrees : Tree → List Tree
  | .leaf kind text line => [.leaf kind text line]
  | .branch kind children => .branch kind children :: allSubtrees children

/-- Some trees and all trees below them. -/
def allSubtrees : List Tree → List Tree
  | [] => []
  | child :: rest => child.subtrees ++ allSubtrees rest

end

def kind : Tree → Int
  | .leaf kind _ _ => kind
  | .branch kind _ => kind

/-- Whether a tree is of the given kind. -/
def isOf (number : Nat) (tree : Tree) : Bool :=
  tree.kind = number

/-- Whether a tree is of one of the given kinds. -/
def isOneOf (numbers : List Nat) (tree : Tree) : Bool :=
  numbers.any (tree.isOf ·)

/-- Whether a tree of the given kind stands in a tree. -/
def holds (number : Nat) (tree : Tree) : Bool :=
  tree.subtrees.any (isOf number)

/-- Whether a tree is the given word. -/
def isWord (word : String) : Tree → Bool
  | .leaf kind text _ => kind = Kind.name && text = word
  | .branch .. => false

/-! ## Productions -/

/-- Items with something between each two of them. -/
def separated (item between : Tree → Bool) : List Tree → Bool
  | [] => false
  | [only] => item only
  | first :: second :: rest => item first && between second && separated item between rest

theorem separated_first {item between : Tree → Bool} {first : Tree} {rest : List Tree}
    (separates : separated item between (first :: rest) = true) : item first = true := by
  cases rest with
  | nil => exact separates
  | cons second rest =>
      simp only [separated, Bool.and_eq_true] at separates
      exact separates.1.1

/-- The last of some separated items is an item. -/
theorem separated_last {item between : Tree → Bool} : ∀ trees : List Tree,
    separated item between trees = true →
    ∃ index last, trees.length = index + 1 ∧ trees[index]? = some last ∧ item last = true
  | [], separates => by cases separates
  | [only], separates => ⟨0, only, rfl, rfl, separates⟩
  | first :: second :: rest, separates => by
      simp only [separated, Bool.and_eq_true] at separates
      rcases separated_last rest separates.2 with ⟨index, last, count, isLast, isItem⟩
      exact ⟨index + 2, last, by simp [count], isLast, isItem⟩

theorem separated_all {item between : Tree → Bool} : ∀ trees : List Tree,
    separated item between trees = true →
    ∀ tree ∈ trees, item tree = true ∨ between tree = true
  | [], separates => by cases separates
  | [only], separates => by
      intro tree member
      cases List.mem_singleton.mp member
      exact Or.inl separates
  | first :: second :: rest, separates => by
      simp only [separated, Bool.and_eq_true] at separates
      rcases separates with ⟨⟨isItem, isBetween⟩, separatesRest⟩
      intro tree member
      rcases List.mem_cons.mp member with rfl | later
      · exact Or.inl isItem
      · rcases List.mem_cons.mp later with rfl | inRest
        · exact Or.inr isBetween
        · exact separated_all rest separatesRest tree inRest

/-- The version of the grammar that the productions belong to. -/
abbrev grammar : Grammar := .version3

/-- A declaration starts with a word and the name it declares. -/
def declares (word : String) : List Tree → Bool
  | first :: second :: _ => first.isWord word && second.isOf Kind.name
  | _ => false

/-- A global statement is a word and names with commas between them. -/
def listsNames : List Tree → Bool
  | first :: rest => first.isOf Kind.name && separated (isOf Kind.name) (isOf Kind.comma) rest
  | [] => false

/-- An import from a module: a word, dots, the module, another word, and the rest. -/
def importsFrom : List Tree → Bool
  | first :: rest =>
    first.isOf Kind.name &&
      match rest.dropWhile (isOneOf grammar.relativeDots) with
      | [] => false
      | [next] => next.isOf Kind.name
      | next :: word :: _ =>
        next.isOf Kind.name || next.isOf grammar.dottedName && word.isOf Kind.name
  | [] => false

/-- Whether the first tree right below a tree is a test. -/
def startsWithTest : Tree → Bool
  | .branch _ (first :: _) => first.isOf grammar.test
  | _ => false

/-- An expression, an assignment that also reads its target, or a chain of assignments. -/
def assigns : List Tree → Bool
  | [only] => only.isOf grammar.targetList
  | first :: second :: rest =>
    first.isOf grammar.targetList &&
      (second.isOf grammar.augmentedAssignment && first.startsWithTest &&
          (match rest with
            | [value] => value.isOneOf [grammar.testList, grammar.yieldExpression]
            | _ => false) ||
        second.isOf Kind.equal &&
          separated (isOneOf [grammar.targetList, grammar.yieldExpression]) (isOf Kind.equal) rest)
  | [] => false

/-- The production of a kind, for the kinds that a walk relies on. -/
def production (kind : Nat) : List Tree → Bool :=
  if kind = grammar.globalStatement then listsNames
  else if kind = grammar.functionDefinition then declares "def"
  else if kind = grammar.classDefinition then declares "class"
  else if kind = grammar.decorated then
    fun
    | [first, second] =>
      first.isOf grammar.decorators &&
        second.isOneOf [grammar.functionDefinition, grammar.classDefinition]
    | _ => false
  else if kind = grammar.decorators then
    fun children => !children.isEmpty && children.all (isOf grammar.decorator)
  else if kind = grammar.decorator then
    fun
    | first :: second :: _ => first.isOf Kind.atSign && second.isOf grammar.dottedName
    | _ => false
  else if kind = grammar.dottedName then separated (isOf Kind.name) (isOf Kind.dot)
  else if kind = grammar.importName then
    fun
    | [first, second] => first.isOf Kind.name && second.isOf grammar.importedNames
    | _ => false
  else if kind = grammar.importedNames then separated (isOf Kind.importedName) (isOf Kind.comma)
  else if kind = Kind.importedName then
    fun
    | [only] => only.isOf grammar.dottedName
    | [first, word, name] =>
      first.isOf grammar.dottedName && word.isOf Kind.name && name.isOf Kind.name
    | _ => false
  else if kind = grammar.importFrom then importsFrom
  else if kind = grammar.expressionStatement then assigns
  else if kind = grammar.atom then fun children => !children.isEmpty
  else if kind = grammar.trailer then
    fun
    | [only] => !only.isOf Kind.dot
    | children => !children.isEmpty
  else fun _ => true

/-- What a single tree has to be like: a terminal has a line and a text, except where only its kind
counts; a construct follows its production; and what can be assigned to holds a primary and no
statement. -/
def sound : Tree → Bool
  | .leaf kind text line =>
    kind < Kind.firstConstruct && 1 ≤ line &&
      (text ≠ "" ||
        [Kind.newline, Kind.indent, Kind.dedent, Kind.endMarker].any fun silent => kind = silent)
  | .branch kind children =>
    Kind.firstConstruct ≤ kind && production kind children &&
      (!grammar.targets.contains kind ||
        (Tree.branch kind children).holds grammar.power &&
          !(Tree.branch kind children).holds grammar.expressionStatement)

/-! ## Terminals on their lines -/

/-- What the place of a terminal makes of it. -/
inductive Role where
  /-- A terminal that never holds a mark. -/
  | word
  /-- A name that can hold a mark. -/
  | name
  /-- A part of a dotted name behind the first, which can grow together with the one before it. -/
  | part
  deriving DecidableEq

/-- The role of the terminal at a position right below a construct. -/
def roleIn (kind position : Nat) : Role :=
  if kind = grammar.dottedName then if position = 1 then .name else .part
  else if kind = grammar.globalStatement then if position % 2 = 0 then .name else .word
  else if kind = grammar.functionDefinition || kind = grammar.classDefinition ||
      kind = grammar.trailer then
    if position = 2 then .name else .word
  else if kind = grammar.atom then if position = 1 then .name else .word
  else .word

/-- A terminal with the role it plays. -/
structure Terminal where
  role : Role
  kind : Int
  text : String
  line : Int

mutual

/-- The terminals of a tree in the order of reading; the role is that of a tree that is a terminal.
-/
def terminals (role : Role) : Tree → List Terminal
  | .leaf kind text line => [⟨role, kind, text, line⟩]
  | .branch kind children => terminalsFrom kind 1 children

/-- The terminals of the trees right below a construct, from a position on. -/
def terminalsFrom (kind position : Nat) : List Tree → List Terminal
  | [] => []
  | child :: rest => child.terminals (roleIn kind position) ++ terminalsFrom kind (position + 1) rest

end

/-- Whether a terminal can become a symbol: a name can unless it is a keyword that holds no mark,
and so can a dot in a dotted name. -/
def Terminal.mayBeSymbol (terminal : Terminal) : Bool :=
  terminal.kind = Kind.name &&
      (terminal.role ≠ .word || !grammar.isKeyword (.text terminal.text)) ||
    terminal.kind = Kind.dot && terminal.role = .part

/-- Where reading the terminals of a tree has come to. -/
inductive Cursor where
  /-- On a line, behind something that no symbol may follow or not. -/
  | on (line : Int) (behindSymbol : Bool)
  | ended
  deriving DecidableEq

namespace Cursor

/-- Reads one terminal.  A string and a dedent stay on the line at hand, and a dedent may end a
function there; a symbol may not follow another one or the end of a function on the same line,
unless they are parts of one dotted name; nothing follows the end of the source. -/
def step : Cursor → Terminal → Option Cursor
  | .ended, _ => none
  | .on line behindSymbol, terminal =>
    if terminal.kind = Kind.dedent then some (.on line true)
    else if terminal.kind = Kind.string then some (.on line false)
    else if terminal.kind = Kind.endMarker then some .ended
    else
      let blocked := behindSymbol && line = terminal.line
      if terminal.kind = Kind.newline || terminal.kind = Kind.indent then
        some (.on terminal.line blocked)
      else if terminal.mayBeSymbol then
        if blocked && terminal.role ≠ .part then none else some (.on terminal.line true)
      else some (.on terminal.line false)

/-- Reads terminals one after the other. -/
def steps (cursor : Cursor) : List Terminal → Option Cursor
  | [] => some cursor
  | terminal :: rest => (cursor.step terminal).bind fun next => next.steps rest

theorem steps_append (cursor : Cursor) (first second : List Terminal) :
    cursor.steps (first ++ second) = (cursor.steps first).bind fun next => next.steps second := by
  induction first generalizing cursor with
  | nil => rfl
  | cons terminal rest ih =>
      simp only [List.cons_append, steps]
      cases cursor.step terminal with
      | none => rfl
      | some next => exact ih next

end Cursor

/-- A tree that a walk can rely on. -/
structure WellShaped (tree : Tree) : Prop where
  sound : ∀ subtree ∈ tree.subtrees, subtree.sound = true
  spaced : Cursor.steps (.on 1 false) (tree.terminals .word) = some .ended

end Tree

end CrossRef
