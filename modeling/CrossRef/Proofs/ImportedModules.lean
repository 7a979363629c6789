import CrossRef.Proofs.ImportCounts
import CrossRef.Proofs.Shape
import CrossRef.Proofs.TargetPlans
import CrossRef.Proofs.WrittenMarks

/-!
# Imported modules

An import statement lists modules, each with another name behind it if need be, or it names a single
one to take things from.  Below the statement a walk looks at nothing but the list and the dotted names
of the modules, and those count the list down to nothing, whatever the count was before.  In front of
every module stands a terminal that belongs to none.
-/

namespace CrossRef

open Assignment (Token)

/-- Whether a walk finds nothing to look at anywhere in a tree. -/
def Element.isSilent (tree : Element) : Bool :=
  (tree.preorder []).all fun entry => entry.2.constructIn .version3 = .other

namespace Import

/-- Terminals of the given kinds in a row. -/
def row (tokens : List (Nat × Token)) : List Element :=
  tokens.map fun (kind, token) => token.toElement kind

theorem row_cons (kind : Nat) (token : Token) (tokens : List (Nat × Token)) :
    row ((kind, token) :: tokens) = token.toElement kind :: row tokens :=
  rfl

/-- The name of a module: names with dots between them. -/
structure DottedName where
  first : Token
  others : List (Token × Token)

namespace DottedName

/-- The terminals of a dotted name with their kinds. -/
def tokens (name : DottedName) : List (Nat × Token) :=
  (Kind.name, name.first) ::
    name.others.flatMap fun (dot, next) => [(Kind.dot, dot), (Kind.name, next)]

def parts (name : DottedName) : List Element :=
  row name.tokens

def toElement (name : DottedName) : Element :=
  .ofKind Grammar.version3.dottedName name.parts

/-- A dotted name as it is written. -/
def text (name : DottedName) : String :=
  String.join (name.tokens.map (·.2.text))

/-- Whether all terminals of a dotted name stand on one line. -/
def OnOneLine (name : DottedName) : Prop :=
  ∀ entry ∈ name.tokens, entry.2.line = name.first.line

end DottedName

/-- A module in a list, and the words that give it another name. -/
structure Module where
  name : DottedName
  nickname : Option (Token × Token)

namespace Module

def words (imported : Module) : List (Nat × Token) :=
  imported.nickname.elim [] fun (word, other) => [(Kind.name, word), (Kind.name, other)]

def toElement (imported : Module) : Element :=
  .ofKind Kind.importedName
    (imported.name.toElement :: row imported.words)

end Module

/-- A dot or an ellipsis in front of a module. -/
structure RelativeDot where
  kind : Nat
  isDot : kind ∈ Grammar.version3.relativeDots
  token : Token

theorem RelativeDot.kind_cases (dot : RelativeDot) : dot.kind = Kind.dot ∨ dot.kind = Kind.ellipsis := by
  simpa [Grammar.version3] using dot.isDot

/-- A tree in which a walk finds nothing to look at. -/
structure Silent where
  tree : Element
  isSilent : tree.isSilent = true

/-- Commas with modules behind them. -/
def listed (others : List (Token × Module)) : List Element :=
  others.flatMap fun (comma, imported) => [comma.toElement Kind.comma, imported.toElement]

/-- All modules of a list, the first one without a comma. -/
def moduleList (first : Module) (others : List (Token × Module)) : Element :=
  .ofKind Grammar.version3.importedNames (first.toElement :: listed others)

/-- The dotted names among commas and modules, with their places. -/
def modulesFrom (path : Path) (position : Nat) : List (Token × Module) → List (Path × DottedName)
  | [] => []
  | (_, imported) :: rest =>
    (path ++ [position + 1, 1], imported.name) :: modulesFrom path (position + 2) rest

end Import

/-- An import statement. -/
inductive Import where
  | names (word : Token) (first : Import.Module) (others : List (Token × Import.Module))
  | fromModule (word : Token) (dots : List Import.RelativeDot) (name : Option Import.DottedName)
      (second : Token) (tail : List Import.Silent)

namespace Import

/-- The terminals in front of the module that things are taken from. -/
def heading (word : Token) (dots : List RelativeDot) : List (Nat × Token) :=
  (Kind.name, word) :: dots.map fun dot => (dot.kind, dot.token)

def toElement : Import → Element
  | .names word first others =>
    .ofKind Grammar.version3.importName [word.toElement Kind.name, moduleList first others]
  | .fromModule word dots name second tail =>
    .ofKind Grammar.version3.importFrom
      (row (heading word dots) ++
        (name.toList.map DottedName.toElement ++
          second.toElement Kind.name :: tail.map Silent.tree))

/-- The dotted names of the modules in a statement, with their places. -/
def modules (path : Path) : Import → List (Path × DottedName)
  | .names _ first others => (path ++ [2, 1, 1], first.name) :: modulesFrom (path ++ [2]) 2 others
  | .fromModule _ dots name _ _ => name.toList.map fun name => (path ++ [dots.length + 2], name)

/-- Whether a statement lists modules. -/
def isList : Import → Bool
  | .names .. => true
  | .fromModule .. => false

/-! ## The nodes of an import statement -/

/-- Nodes that a walk does not look at. -/
def Unnoticed (nodes : List (Path × Element)) : Prop :=
  ∀ entry ∈ nodes, entry.2.constructIn .version3 = .other

theorem Unnoticed.passAll {nodes : List (Path × Element)} (unnoticed : Unnoticed nodes)
    (count : ImportCount) : count.passAll .version3 nodes = count := by
  induction nodes with
  | nil => rfl
  | cons entry rest ih =>
      rcases entry with ⟨path, node⟩
      have other : node.constructIn .version3 = .other := unnoticed _ List.mem_cons_self
      have same : count.pass .version3 node = count := by simp [ImportCount.pass, other]
      rw [ImportCount.passAll_cons, same]
      exact ih fun entry member => unnoticed entry (List.mem_cons_of_mem _ member)

theorem constructIn_ofKind (kind : Nat) (parts : List Element) :
    (Element.ofKind kind parts).constructIn .version3 =
      Grammar.version3.constructOf (.int kind) :=
  Element.constructIn_eq (Element.kind_node _ _)

theorem constructIn_token {kind : Nat} (isLow : kind < Kind.firstConstruct) (token : Token) :
    (token.toElement kind).constructIn .version3 = .other := by
  have isKind : (token.toElement kind).isOfKind kind = true := by
    simp
  apply Element.constructIn_terminal List.mem_cons_self
  exact Element.isTerminal_iff.mp (Element.isTerminal_of_isOfKind isKind isLow)

/-- Terminals in a row have nothing below them. -/
theorem exists_token {tokens : List (Nat × Token)} {path : Path} {position : Nat}
    {entry : Path × Element}
    (member : entry ∈ Element.preorderFrom path position (row tokens)) :
    ∃ part ∈ tokens, entry.2 = part.2.toElement part.1 := by
  rcases Element.mem_preorderFrom.mp member with ⟨index, inner, isElement, inToken⟩
  rcases List.mem_map.mp (List.mem_of_getElem? isElement) with ⟨part, isPart, isToken⟩
  rw [← isToken, Token.preorder, List.mem_singleton] at inToken
  exact ⟨part, isPart, congrArg Prod.snd inToken⟩

theorem unnoticed_tokens {tokens : List (Nat × Token)}
    (low : ∀ entry ∈ tokens, entry.1 < Kind.firstConstruct) (path : Path) (position : Nat) :
    Unnoticed (Element.preorderFrom path position (row tokens)) := by
  intro entry member
  rcases exists_token member with ⟨part, isPart, isToken⟩
  rw [isToken]
  exact constructIn_token (low part isPart) part.2

theorem Silent.unnoticed (silent : Silent) (path : Path) : Unnoticed (silent.tree.preorder path) := by
  have nodes := Element.preorder_nodes path [] silent.tree
  intro entry member
  have isNode : entry.2 ∈ (silent.tree.preorder []).map Prod.snd :=
    nodes ▸ List.mem_map_of_mem member
  rcases List.mem_map.mp isNode with ⟨other, inTree, same⟩
  rw [← same]
  simpa using List.all_eq_true.mp silent.isSilent other inTree

namespace DottedName

theorem kind_of_mem_tokens {name : DottedName} {entry : Nat × Token} (member : entry ∈ name.tokens) :
    entry.1 = Kind.name ∨ entry.1 = Kind.dot := by
  simp only [tokens, List.mem_cons, List.mem_flatMap, List.not_mem_nil, or_false] at member
  rcases member with rfl | ⟨pair, _, rfl | rfl⟩ <;> simp

theorem preorder (name : DottedName) (path : Path) :
    name.toElement.preorder path =
      (path, name.toElement) :: Element.preorderFrom path 1 name.parts :=
  Element.preorder_ofKind path _ _

theorem unnoticed_parts (name : DottedName) (path : Path) :
    Unnoticed (Element.preorderFrom path 1 name.parts) := by
  apply unnoticed_tokens
  intro entry member
  rcases kind_of_mem_tokens member with isName | isDot
  · rw [isName]
    decide
  · rw [isDot]
    decide

end DottedName

theorem Module.low_words (imported : Module) :
    ∀ entry ∈ imported.words, entry.1 < Kind.firstConstruct := by
  unfold Module.words
  cases imported.nickname with
  | none => simp
  | some pair => simp [Kind.name, Kind.firstConstruct]

/-- A module in a list is its dotted name, between a construct and terminals. -/
theorem Module.preorder (imported : Module) (path : Path) :
    ∃ behind, Unnoticed behind ∧ imported.toElement.preorder path =
      (path, imported.toElement) :: (imported.name.toElement.preorder (path ++ [1]) ++ behind) := by
  refine ⟨_, unnoticed_tokens imported.low_words path 2, ?_⟩
  rw [Module.toElement, Element.preorder_ofKind, DottedName.toElement, Element.preorderFrom_ofKind]

theorem Module.constructIn (imported : Module) :
    imported.toElement.constructIn .version3 = .other :=
  constructIn_ofKind _ _

theorem constructIn_moduleList (first : Module) (others : List (Token × Module)) :
    (moduleList first others).constructIn .version3 = .importedNames :=
  constructIn_ofKind _ _

theorem preorderFrom_listed (path : Path) (position : Nat) (comma : Token) (imported : Module)
    (rest : List (Token × Module)) :
    Element.preorderFrom path position (listed ((comma, imported) :: rest)) =
      (path ++ [position], comma.toElement Kind.comma) ::
        (imported.toElement.preorder (path ++ [position + 1]) ++
          Element.preorderFrom path (position + 2) (listed rest)) := by
  rw [listed, List.flatMap_cons, List.cons_append, List.cons_append, Assignment.Token.preorderFrom,
    Module.toElement, Element.preorderFrom_ofKind]
  rfl

theorem preorder_names (word : Token) (first : Module) (others : List (Token × Module)) (path : Path) :
    (names word first others).toElement.preorder path =
      (path, (names word first others).toElement) :: (path ++ [1], word.toElement Kind.name) ::
        (path ++ [2], moduleList first others) ::
          (first.toElement.preorder (path ++ [2, 1]) ++
            Element.preorderFrom (path ++ [2]) 2 (listed others)) := by
  have inner : Element.preorderFrom (path ++ [2]) 1 (first.toElement :: listed others) =
      first.toElement.preorder (path ++ [2, 1]) ++
        Element.preorderFrom (path ++ [2]) 2 (listed others) := by
    rw [Module.toElement, Element.preorderFrom_ofKind, List.append_assoc]
    rfl
  rw [toElement, Element.preorder_ofKind, Assignment.Token.preorderFrom, moduleList,
    Element.preorderFrom_ofKind, Element.preorder_ofKind, inner]
  simp [Element.preorderFrom]

/-- The rest of a statement behind the module that things are taken from. -/
theorem unnoticed_rest (second : Token) (tail : List Silent) (path : Path) (position : Nat) :
    Unnoticed (Element.preorderFrom path position
      (second.toElement Kind.name :: tail.map Silent.tree)) := by
  intro entry member
  rw [Assignment.Token.preorderFrom] at member
  rcases List.mem_cons.mp member with rfl | later
  · exact constructIn_token (by decide) second
  · rcases Element.mem_preorderFrom.mp later with ⟨index, inner, isPart, inPart⟩
    rcases List.mem_map.mp (List.mem_of_getElem? isPart) with ⟨silent, _, isTree⟩
    rw [← isTree] at inPart
    exact silent.unnoticed _ entry inPart

theorem unnoticed_heading (word : Token) (dots : List RelativeDot) (path : Path) (position : Nat) :
    Unnoticed (Element.preorderFrom path position (row (heading word dots))) := by
  apply unnoticed_tokens
  intro entry member
  rcases List.mem_cons.mp member with rfl | later
  · exact (by decide : Kind.name < Kind.firstConstruct)
  · rcases List.mem_map.mp later with ⟨dot, _, rfl⟩
    rcases dot.kind_cases with isKind | isKind <;> simp [isKind, Kind.dot, Kind.ellipsis, Kind.firstConstruct]

theorem preorder_fromModule (word : Token) (dots : List RelativeDot) (name : Option DottedName)
    (second : Token) (tail : List Silent) (path : Path) :
    ∃ behind, Unnoticed behind ∧ (fromModule word dots name second tail).toElement.preorder path =
      (path, (fromModule word dots name second tail).toElement) ::
        (Element.preorderFrom path 1 (row (heading word dots)) ++
          (name.toList.flatMap (fun name => name.toElement.preorder (path ++ [dots.length + 2])) ++
            behind)) := by
  have count : 1 + (row (heading word dots)).length =
      dots.length + 2 := by
    simp [row, heading]
    omega
  rw [toElement, Element.preorder_ofKind, Element.preorderFrom_append, count]
  cases name with
  | none => exact ⟨_, unnoticed_rest second tail path (dots.length + 2), by simp⟩
  | some name =>
      refine ⟨_, unnoticed_rest second tail path (dots.length + 3), ?_⟩
      simp only [Option.toList_some, List.map_cons, List.map_nil, List.cons_append, List.nil_append,
        List.flatMap_cons, List.flatMap_nil, List.append_nil]
      rw [DottedName.toElement, Element.preorderFrom_ofKind]

/-! ## What a walk looks at in an import statement -/

/-- What can stand below an import statement: nothing of interest but a list of modules and the dotted
names of its modules. -/
def Ordinary (modules : List (Path × DottedName)) (entry : Path × Element) : Prop :=
  entry.2.constructIn .version3 ∈ [.other, .importedNames] ∨
    ∃ imported ∈ modules, entry = (imported.1, imported.2.toElement)

theorem Unnoticed.ordinary {nodes : List (Path × Element)} (unnoticed : Unnoticed nodes)
    (modules : List (Path × DottedName)) : ∀ entry ∈ nodes, Ordinary modules entry := by
  intro entry member
  left
  simp [unnoticed entry member]

theorem DottedName.ordinary {name : DottedName} {path : Path} {modules : List (Path × DottedName)}
    (isModule : (path, name) ∈ modules) :
    ∀ entry ∈ name.toElement.preorder path, Ordinary modules entry := by
  rw [name.preorder, List.forall_mem_cons]
  exact ⟨Or.inr ⟨_, isModule, rfl⟩, (name.unnoticed_parts path).ordinary modules⟩

theorem Module.ordinary {imported : Module} {path : Path} {modules : List (Path × DottedName)}
    (isModule : (path ++ [1], imported.name) ∈ modules) :
    ∀ entry ∈ imported.toElement.preorder path, Ordinary modules entry := by
  rcases imported.preorder path with ⟨behind, unnoticed, isOrder⟩
  rw [isOrder, List.forall_mem_cons, List.forall_mem_append]
  exact ⟨Or.inl (by simp [imported.constructIn]), DottedName.ordinary isModule,
    unnoticed.ordinary modules⟩

theorem ordinary_listed {path : Path} {modules : List (Path × DottedName)} :
    ∀ (others : List (Token × Module)) (position : Nat), modulesFrom path position others ⊆ modules →
      ∀ entry ∈ Element.preorderFrom path position (listed others), Ordinary modules entry
  | [], _, _ => fun _ member => nomatch member
  | (comma, imported) :: rest, position, areModules => by
      rw [modulesFrom, List.cons_subset] at areModules
      rw [preorderFrom_listed, List.forall_mem_cons, List.forall_mem_append]
      refine ⟨Or.inl ?_, Module.ordinary ?_, ordinary_listed rest (position + 2) areModules.2⟩
      · have other := constructIn_token (by decide : Kind.comma < Kind.firstConstruct) comma
        simp [other]
      · rw [List.append_assoc]
        exact areModules.1

theorem ordinary_below (statement : Import) (path : Path) :
    ∀ entry ∈ (statement.toElement.preorder path).tail,
      Ordinary (statement.modules path) entry := by
  cases statement with
  | names word first others =>
      rw [preorder_names, List.tail_cons, List.forall_mem_cons, List.forall_mem_cons,
        List.forall_mem_append]
      refine ⟨Or.inl ?_, Or.inl ?_, Module.ordinary ?_, ordinary_listed others 2 ?_⟩
      · simp [constructIn_token (by decide : Kind.name < Kind.firstConstruct) word]
      · simp [constructIn_moduleList]
      · rw [List.append_assoc]
        exact List.mem_cons_self
      · exact List.subset_cons_self _ _
  | fromModule word dots name second tail =>
      rcases preorder_fromModule word dots name second tail path with ⟨behind, unnoticed, isOrder⟩
      rw [isOrder, List.tail_cons, List.forall_mem_append, List.forall_mem_append]
      refine ⟨(unnoticed_heading word dots path 1).ordinary _, ?_, unnoticed.ordinary _⟩
      cases name with
      | none => simp
      | some name =>
          simp only [Option.toList_some, List.flatMap_cons, List.flatMap_nil, List.append_nil]
          apply DottedName.ordinary
          simp [modules]

theorem constructIn_toElement (statement : Import) :
    statement.toElement.constructIn .version3 =
      if statement.isList then .importName else .importFrom := by
  cases statement <;> exact constructIn_ofKind _ _

theorem isConstruct (statement : Import) : statement.toElement.isConstruct = .ok true := by
  cases statement with
  | names word first others =>
      have isKind : (names word first others).toElement.isOfKind Grammar.version3.importName = true := by
        simp [toElement]
      exact Element.isConstruct_of_isOfKind isKind (by decide)
  | fromModule word dots name second tail =>
      have isKind : (fromModule word dots name second tail).toElement.isOfKind
          Grammar.version3.importFrom = true := by
        simp [toElement]
      exact Element.isConstruct_of_isOfKind isKind (by decide)

/-- Below an import statement stands no other one. -/
theorem no_import_below (statement : Import) (path : Path) :
    ∀ entry ∈ (statement.toElement.preorder path).tail,
      entry.2.constructIn .version3 ∉ [.importName, .importFrom] := by
  intro entry isBelow isImport
  rcases ordinary_below statement path entry isBelow with isOther | ⟨imported, _, rfl⟩
  · simp only [List.mem_cons, List.not_mem_nil, or_false] at isImport isOther
    rcases isOther with isOther | isOther <;> simp [isOther] at isImport
  · have isDotted : imported.2.toElement.constructIn .version3 = .dottedName :=
      constructIn_ofKind _ _
    simp [isDotted] at isImport

/-! ## The modules that are left -/

/-- The count when so many modules are left. -/
def left (count : Nat) : ImportCount :=
  ⟨count ≠ 0, some (2 * count)⟩

theorem DottedName.passAll (name : DottedName) (path : Path) (count : Nat) :
    (left (count + 1)).passAll .version3 (name.toElement.preorder path) = left count := by
  rw [name.preorder, ImportCount.passAll_cons, (name.unnoticed_parts path).passAll]
  have isDotted : name.toElement.constructIn .version3 = .dottedName := constructIn_ofKind _ _
  have taken : 2 * (count + 1) - 2 = 2 * count := by omega
  have done : 2 * count = 0 ↔ count = 0 := by omega
  simp [ImportCount.pass, isDotted, left, taken, done]

theorem Module.passAll (imported : Module) (path : Path) (count : Nat) :
    (left (count + 1)).passAll .version3 (imported.toElement.preorder path) = left count := by
  rcases imported.preorder path with ⟨behind, unnoticed, isOrder⟩
  have same : (left (count + 1)).pass .version3 imported.toElement = left (count + 1) := by
    simp [ImportCount.pass, imported.constructIn]
  rw [isOrder, ImportCount.passAll_cons, same, ImportCount.passAll_append, DottedName.passAll,
    unnoticed.passAll]

theorem passAll_comma (count : ImportCount) (comma : Token) (path : Path)
    (rest : List (Path × Element)) :
    count.passAll .version3 ((path, comma.toElement Kind.comma) :: rest) =
      count.passAll .version3 rest := by
  have other := constructIn_token (by decide : Kind.comma < Kind.firstConstruct) comma
  rw [ImportCount.passAll_cons]
  simp [ImportCount.pass, other]

theorem passAll_listed (path : Path) (position : Nat) (others : List (Token × Module)) :
    (left others.length).passAll .version3 (Element.preorderFrom path position (listed others)) =
      left 0 := by
  induction others generalizing position with
  | nil => rfl
  | cons entry rest ih =>
      rw [preorderFrom_listed, passAll_comma, ImportCount.passAll_append, List.length_cons,
        Module.passAll, ih]

/-- A list of modules is counted from its own length, whatever the count was before. -/
theorem passAll_heading (word : Token) (first : Module) (others : List (Token × Module))
    (path : Path) (count : ImportCount) (rest : List (Path × Element)) :
    count.passAll .version3
        ((path, (names word first others).toElement) :: (path ++ [1], word.toElement Kind.name) ::
          (path ++ [2], moduleList first others) ::
            rest) =
      (left (others.length + 1)).passAll .version3 rest := by
  have isImport : (names word first others).toElement.constructIn .version3 = .importName :=
    constructIn_ofKind _ _
  have isWord := constructIn_token (by decide : Kind.name < Kind.firstConstruct) word
  have length : (moduleList first others).elements.length = 2 * (others.length + 1) := by
    simp [moduleList, Element.ofKind, listed, List.length_flatMap]
    omega
  have counted := Grammar.version3.importHalves_of_even (Nat.mul_mod_right 2 (others.length + 1))
  rw [ImportCount.passAll_cons, ImportCount.passAll_cons, ImportCount.passAll_cons]
  simp [ImportCount.pass, isImport, isWord, constructIn_moduleList, length, counted, left]

theorem passAll_names (word : Token) (first : Module) (others : List (Token × Module)) (path : Path)
    (count : ImportCount) :
    count.passAll .version3 ((names word first others).toElement.preorder path) = left 0 := by
  rw [preorder_names, passAll_heading, ImportCount.passAll_append, Module.passAll, passAll_listed]

/-! ## What stands in front of a module -/

/-- Nodes that end in a terminal of an import statement, with nothing but constructs behind it.  The
terminal lies no deeper than the module that follows. -/
def Leads (depth : Nat) (nodes : List (Path × Element)) : Prop :=
  ∃ front place kind token inner,
    nodes = front ++ (place, Token.toElement kind token) :: inner ∧
      kind ∈ [Kind.name, Kind.comma, Kind.dot, Kind.ellipsis] ∧ place.length ≤ depth ∧
      ∀ entry ∈ inner, entry.2.isConstruct = .ok true

theorem Leads.behind {depth : Nat} {nodes : List (Path × Element)} (leads : Leads depth nodes)
    (more : List (Path × Element)) : Leads depth (more ++ nodes) := by
  rcases leads with ⟨front, place, kind, token, inner, rfl, rest⟩
  exact ⟨more ++ front, place, kind, token, inner, by simp, rest⟩

theorem Leads.cons {depth : Nat} {nodes : List (Path × Element)} (leads : Leads depth nodes)
    (entry : Path × Element) : Leads depth (entry :: nodes) :=
  leads.behind [entry]

theorem DottedName.isConstruct (name : DottedName) : name.toElement.isConstruct = .ok true := by
  have isKind : name.toElement.isOfKind Grammar.version3.dottedName = true := by
    simp [DottedName.toElement]
  exact Element.isConstruct_of_isOfKind isKind (by decide)

theorem Module.isConstruct (imported : Module) : imported.toElement.isConstruct = .ok true := by
  have isKind : imported.toElement.isOfKind Kind.importedName = true := by simp [Module.toElement]
  exact Element.isConstruct_of_isOfKind isKind (by decide)

/-- Every module of a list stands behind a terminal, and is come to while modules are left. -/
theorem listed_stands (path : Path) : ∀ (others : List (Token × Module)) (position : Nat),
    ∀ imported ∈ modulesFrom path position others, ∃ front back,
      Element.preorderFrom path position (listed others) =
          front ++ (imported.2.toElement.preorder imported.1 ++ back) ∧
        Leads imported.1.length front ∧
        ((left others.length).passAll .version3 front).importing = true
  | [], _ => fun _ member => nomatch member
  | (comma, first) :: rest, position => by
      rcases first.preorder (path ++ [position + 1]) with ⟨behind, unnoticed, isOrder⟩
      rw [modulesFrom, List.forall_mem_cons, preorderFrom_listed]
      constructor
      · refine ⟨[(path ++ [position], comma.toElement Kind.comma),
          (path ++ [position + 1], first.toElement)],
          behind ++ Element.preorderFrom path (position + 2) (listed rest), ?_, ?_, ?_⟩
        · rw [isOrder]
          simp
        · refine ⟨[], _, Kind.comma, comma, _, rfl, by simp, by simp, ?_⟩
          simp [first.isConstruct]
        · rw [passAll_comma]
          simp [ImportCount.passAll, ImportCount.pass, first.constructIn, left]
      · intro imported member
        rcases listed_stands path rest (position + 2) imported member with
          ⟨front, back, inRest, leads, importing⟩
        refine ⟨(path ++ [position], comma.toElement Kind.comma) ::
          (first.toElement.preorder (path ++ [position + 1]) ++ front), back, ?_, ?_, ?_⟩
        · rw [inRest]
          simp
        · exact (leads.behind _).cons _
        · rwa [passAll_comma, ImportCount.passAll_append, List.length_cons, Module.passAll]

theorem leads_tokens {path : Path} {depth : Nat} (deep : path.length < depth) :
    ∀ (tokens : List (Nat × Token)) (position : Nat), tokens ≠ [] →
      (∀ entry ∈ tokens, entry.1 ∈ [Kind.name, Kind.comma, Kind.dot, Kind.ellipsis]) →
      Leads depth (Element.preorderFrom path position (row tokens))
  | [], _, nonempty, _ => absurd rfl nonempty
  | [(kind, token)], position, _, areKinds => by
      refine ⟨[], path ++ [position], kind, token, [], ?_, areKinds _ List.mem_cons_self, ?_, by simp⟩
      · rw [row_cons, Assignment.Token.preorderFrom]
        rfl
      · rw [List.length_append, List.length_singleton]
        omega
  | (kind, token) :: next :: rest, position, _, areKinds => by
      rw [row_cons, Assignment.Token.preorderFrom]
      have leads := leads_tokens deep (next :: rest) (position + 1) (List.cons_ne_nil _ _)
        fun entry member => areKinds entry (List.mem_cons_of_mem _ member)
      exact leads.cons _

/-- Every module of a statement stands behind a terminal, and in a list it is come to while modules are
left. -/
theorem stands (statement : Import) (path : Path) :
    ∀ imported ∈ statement.modules path, ∃ front back,
      statement.toElement.preorder path =
          front ++ (imported.2.toElement.preorder imported.1 ++ back) ∧
        Leads imported.1.length front ∧
        (statement.isList = true →
          ∀ count : ImportCount, (count.passAll .version3 front).importing = true) := by
  cases statement with
  | names word first others =>
      rcases first.preorder (path ++ [2, 1]) with ⟨behind, unnoticed, isOrder⟩
      rw [modules, List.forall_mem_cons, preorder_names]
      constructor
      · refine ⟨[(path, (names word first others).toElement), (path ++ [1], word.toElement Kind.name),
          (path ++ [2], moduleList first others),
          (path ++ [2, 1], first.toElement)],
          behind ++ Element.preorderFrom (path ++ [2]) 2 (listed others), ?_, ?_, ?_⟩
        · rw [isOrder]
          simp
        · refine ⟨[_], _, Kind.name, word, _, rfl, by simp, by simp, ?_⟩
          have isKind : (moduleList first others).isOfKind Grammar.version3.importedNames = true := by
            simp [moduleList]
          have isList := Element.isConstruct_of_isOfKind isKind (by decide)
          simp [first.isConstruct, isList]
        · intro _ count
          rw [passAll_heading]
          simp [ImportCount.passAll, ImportCount.pass, first.constructIn, left]
      · intro imported member
        rcases listed_stands (path ++ [2]) others 2 imported member with
          ⟨front, back, inRest, leads, importing⟩
        refine ⟨(path, (names word first others).toElement) :: (path ++ [1], word.toElement Kind.name) ::
          (path ++ [2], moduleList first others) ::
          (first.toElement.preorder (path ++ [2, 1]) ++ front), back, ?_, ?_, ?_⟩
        · rw [inRest]
          simp
        · exact (((leads.behind _).cons _).cons _).cons _
        · intro _ count
          rwa [passAll_heading, ImportCount.passAll_append, Module.passAll]
  | fromModule word dots name second tail =>
      rcases preorder_fromModule word dots name second tail path with ⟨behind, unnoticed, isOrder⟩
      intro imported member
      rcases List.mem_map.mp member with ⟨found, isName, rfl⟩
      rw [Option.mem_toList] at isName
      cases isName
      refine ⟨(path, (fromModule word dots (some found) second tail).toElement) ::
        Element.preorderFrom path 1 (row (heading word dots)), behind, ?_, ?_, ?_⟩
      · rw [isOrder]
        simp
      · apply Leads.cons
        apply leads_tokens (by simp) _ _ (List.cons_ne_nil _ _)
        intro entry isEntry
        rcases List.mem_cons.mp isEntry with rfl | later
        · simp
        · rcases List.mem_map.mp later with ⟨dot, _, rfl⟩
          rcases dot.kind_cases with isKind | isKind <;> simp [isKind]
      · intro isList
        cases isList

/-- In a tree every module of a statement stands behind a terminal of the statement, and in a list it is
come to while modules are left. -/
theorem stands_in {tree : Element} {statement : Import} {path base : Path} {name : DottedName}
    (inTree : (path, statement.toElement) ∈ tree.preorder [])
    (isModule : (base, name) ∈ statement.modules path) :
    ∃ early front back,
      tree.preorder [] = early ++ (front ++ (name.toElement.preorder base ++ back)) ∧
        (∀ entry ∈ front, entry ∈ statement.toElement.preorder path) ∧ Leads base.length front ∧
        (statement.isList = true →
          ∀ count : ImportCount, (count.passAll .version3 (early ++ front)).importing = true) := by
  rcases Element.preorder_split inTree with ⟨early, late, isSplit⟩
  rcases statement.stands path _ isModule with ⟨front, back, isFront, leads, importing⟩
  refine ⟨early, front, back ++ late, ?_, ?_, leads, ?_⟩
  · rw [isSplit, isFront]
    simp
  · intro entry member
    rw [isFront]
    exact List.mem_append_left _ member
  · intro isList count
    rw [ImportCount.passAll_append]
    exact importing isList _

theorem length_modulesFrom (path : Path) : ∀ (others : List (Token × Module)) (position : Nat),
    ∀ imported ∈ modulesFrom path position others, imported.1.length = path.length + 2
  | [], _ => fun _ member => nomatch member
  | (_, first) :: rest, position => by
      rw [modulesFrom, List.forall_mem_cons]
      exact ⟨by simp, length_modulesFrom path rest (position + 2)⟩

/-- All modules of a statement lie equally deep. -/
theorem length_modules (statement : Import) (path : Path) :
    ∀ imported ∈ statement.modules path,
      imported.1.length = path.length + if statement.isList then 3 else 1 := by
  cases statement with
  | names word first others =>
      rw [modules, List.forall_mem_cons]
      refine ⟨by simp [isList], ?_⟩
      intro imported member
      rw [length_modulesFrom _ _ _ imported member]
      simp [isList]
  | fromModule word dots name second tail =>
      intro imported member
      rcases List.mem_map.mp member with ⟨_, _, rfl⟩
      simp [isList]

end Import

end CrossRef
