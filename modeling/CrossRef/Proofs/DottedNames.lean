import CrossRef.Proofs.Expectations
import CrossRef.Proofs.Writing

/-!
# Walks through dotted names

The parts of a dotted name are the only symbols that can meet on a line.  They grow together if all
of them, dots included, hold the mark of a module; otherwise the dots are plain text and keep the
names apart.  In both cases a walk goes through all parts, and uses up the marks that they hold.
-/

namespace CrossRef

namespace Tree

theorem preorder_leaf (kind : Int) (text : String) (line : Int) (path : Path) :
    (leaf kind text line).toElement.preorder path = [(path, (leaf kind text line).toElement)] := by
  simp [toElement, Element.preorder, Element.preorderFrom]

theorem preorderFrom_cons (path : Path) (position : Nat) (tree : Tree) (rest : List Element) :
    Element.preorderFrom path position (tree.toElement :: rest) =
      tree.toElement.preorder (path ++ [position]) ++
        Element.preorderFrom path (position + 1) rest := by
  cases tree <;> simp [toElement, Element.preorderFrom]

theorem preorder_branch (kind : Nat) (children : List Tree) (path : Path) :
    (branch kind children).toElement.preorder path =
      (path, (branch kind children).toElement) ::
        Element.preorderFrom path 1 (children.map toElement) := by
  simp [toElement_branch, Element.preorder]

/-- A name or a dot has a line and a text. -/
theorem exists_part {part : Tree} (sound : part.sound = true)
    (isPart : part.isOf Kind.name = true ∨ part.isOf Kind.dot = true) :
    ∃ kind text line, part = .leaf kind text line ∧ (kind = Kind.name ∨ kind = Kind.dot) ∧
      1 ≤ line ∧ text ≠ "" := by
  cases part with
  | branch kind children =>
      have bound := firstConstruct_le sound
      rw [isOf_branch, isOf_branch, decide_eq_true_iff, decide_eq_true_iff] at isPart
      simp only [Kind.firstConstruct, Kind.name, Kind.dot] at bound isPart
      omega
  | leaf kind text line =>
      have isKind : kind = Kind.name ∨ kind = Kind.dot := by
        rwa [isOf_iff, isOf_iff] at isPart
      simp only [Tree.sound, Bool.and_eq_true, Bool.or_eq_true, decide_eq_true_eq, List.any_cons,
        List.any_nil, Bool.or_false] at sound
      refine ⟨kind, text, line, rfl, isKind, sound.1.2, ?_⟩
      rcases isKind with rfl | rfl <;>
        simpa [Kind.name, Kind.dot, Kind.newline, Kind.indent, Kind.dedent, Kind.endMarker]
          using sound.2

/-- A later part of a dotted name can be read anywhere. -/
theorem step_part {kind : Int} (isKind : kind = Kind.name ∨ kind = Kind.dot) (number : Int)
    (behindSymbol : Bool) (text : String) (line : Int) :
    (Cursor.on number behindSymbol).step ⟨.part, kind, text, line⟩ = some (.on line true) := by
  rcases isKind with rfl | rfl <;>
    simp [Cursor.step, Terminal.mayBeSymbol, Kind.name, Kind.dot, Kind.dedent, Kind.string,
      Kind.endMarker, Kind.newline, Kind.indent]

theorem roleIn_ne_part {kind : Nat} (notDotted : kind ≠ grammar.dottedName) (position : Nat) :
    roleIn kind position ≠ .part := by
  unfold roleIn
  rw [if_neg notDotted]
  repeat' split
  all_goals simp

/-- What stands behind the first name of a dotted name only goes on with it. -/
theorem roleIn_dottedName {position : Nat} (behind : 2 ≤ position) :
    roleIn grammar.dottedName position = .part := by
  have notFirst : ¬ position = 1 := by omega
  simp [roleIn, notFirst]

end Tree

namespace State

/-- The labels of a region are used up, and nothing else that is noted changes. -/
structure Uses (region : Path → Prop) (before after : State) : Prop where
  unlabelled : ∀ place, region place → after.labelAt? place = none
  labels : ∀ place, ¬ region place → after.labelAt? place = before.labelAt? place
  awaited : ∀ place, place ∈ after.awaited ↔ place ∈ before.awaited
  importHalves : after.importHalves = before.importHalves
  importing : after.importing = before.importing
  assigning : after.assigning = before.assigning

theorem uses_nothing (state : State) : Uses (fun _ => False) state state :=
  ⟨by simp, by simp, by simp, rfl, rfl, rfl⟩

theorem Uses.trans {early late : Path → Prop} {before middle after : State}
    (first : Uses early before middle) (second : Uses late middle after) :
    Uses (fun place => early place ∨ late place) before after := by
  refine ⟨?_, ?_, fun place => (second.awaited place).trans (first.awaited place),
    second.importHalves.trans first.importHalves, second.importing.trans first.importing,
    second.assigning.trans first.assigning⟩
  · intro place inside
    by_cases inLate : late place
    · exact second.unlabelled place inLate
    · rw [second.labels place inLate]
      exact first.unlabelled place (inside.resolve_right inLate)
  · intro place outside
    rcases not_or.mp outside with ⟨notEarly, notLate⟩
    rw [second.labels place notLate, first.labels place notEarly]

theorem Uses.congr {region same : Path → Prop} {before after : State} (uses : Uses region before after)
    (iff : ∀ place, region place ↔ same place) : Uses same before after := by
  have equal : region = same := funext fun place => propext (iff place)
  rw [← equal]
  exact uses

theorem SameNotes.uses {before after : State} {path : Path}
    (same : SameNotes (before.dropMark path) after) : Uses (· = path) before after := by
  have label (place : Path) :
      after.labelAt? place = if place = path then none else before.labelAt? place := by
    rw [← labelAt?_dropMark]
    unfold labelAt?
    rw [same.marks]
  refine ⟨?_, ?_, ?_, same.importHalves, same.importing, same.assigning⟩
  · rintro place rfl
    rw [label, if_pos rfl]
  · intro place differs
    rw [label, if_neg differs]
  · intro place
    rw [same.awaited]
    exact Iff.rfl

/-- Using up the label of one part leaves those of the others. -/
theorem Uses.labelAt?_other {before after : State} {path : Path} {position other : Nat}
    (uses : Uses (· = path ++ [position]) before after) (differs : other ≠ position) :
    after.labelAt? (path ++ [other]) = before.labelAt? (path ++ [other]) := by
  apply uses.labels
  intro same
  exact differs (by simpa using List.append_cancel_left same)

/-- The places of some parts of a dotted name. -/
def PartPlaces (path : Path) (position count : Nat) (place : Path) : Prop :=
  ∃ index, index < count ∧ place = path ++ [position + index]

theorem partPlaces_succ (path : Path) (position count : Nat) (place : Path) :
    place = path ++ [position] ∨ PartPlaces path (position + 1) count place ↔
      PartPlaces path position (count + 1) place := by
  constructor
  · rintro (isFirst | ⟨index, inside, isLater⟩)
    · exact ⟨0, by omega, isFirst⟩
    · refine ⟨index + 1, by omega, ?_⟩
      rw [isLater, Nat.add_right_comm, Nat.add_assoc]
  · rintro ⟨index, inside, isPlace⟩
    cases index with
    | zero => exact Or.inl isPlace
    | succ index =>
        refine Or.inr ⟨index, by omega, ?_⟩
        rw [isPlace, Nat.add_right_comm, Nat.add_assoc]

theorem Uses.parts {path : Path} {position count : Nat} {before middle after : State}
    (first : Uses (· = path ++ [position]) before middle)
    (others : Uses (PartPlaces path (position + 1) count) middle after) :
    Uses (PartPlaces path position (count + 1)) before after :=
  (first.trans others).congr (partPlaces_succ path position count)

theorem Chains.onlyNotes {settings : Settings} {before after : State} {nodes : List (Path × Element)}
    (chains : Chains settings before nodes after) (notes : before.OnlyNotes) : after.OnlyNotes := by
  rcases chains with ⟨meetings, passage, _⟩
  exact passage.onlyNotes notes

variable {settings : Settings} {before : State} {path : Path} {next : Tree.Cursor}

/-- Reading a part and going on with the ones behind it. -/
theorem CanRead.parts {kind : Int} {text : String} {line : Int} {position : Nat} {rest : List Tree}
    {outcome goal : State → Prop}
    (reads : CanRead settings before (path ++ [position]) (.leaf kind text line) outcome)
    (goesOn : ∀ middle, Uses (· = path ++ [position]) before middle → middle.OnlyNotes →
      outcome middle → ∃ after,
        Chains settings middle (Element.preorderFrom path (position + 1) (rest.map Tree.toElement))
          after ∧
        Uses (PartPlaces path (position + 1) rest.length) middle after ∧ goal after)
    (notes : before.OnlyNotes) :
    ∃ after,
      Chains settings before
        (Element.preorderFrom path position ((.leaf kind text line :: rest).map Tree.toElement))
        after ∧
      Uses (PartPlaces path position (rest.length + 1)) before after ∧ goal after := by
  rcases reads with ⟨middle, passes, same, holds⟩
  rcases goesOn middle same.uses (passes.onlyNotes notes) holds with ⟨after, chains, uses, isGoal⟩
  refine ⟨after, ?_, same.uses.parts uses, isGoal⟩
  rw [List.map_cons, Tree.preorderFrom_cons, Tree.preorder_leaf]
  exact .cons passes chains

theorem atTurn_takes_symbol {number target : Int} {mark : Option Mark} {item : Option Item}
    (atTurn : AtTurn number (fun item => ∃ whole, item = some (.symbol mark whole)) target item) :
    Line.Takes mark item := by
  rcases atTurn with rfl | ⟨_, whole, rfl⟩ <;> rintro held name isLast <;> cases isLast
  rfl

theorem atTurn_takesAny_plain {number target : Int} {item : Option Item}
    (atTurn : AtTurn number (fun item => ∃ whole, item = some (.plain whole)) target item) :
    Line.TakesAny item := by
  rcases atTurn with rfl | ⟨_, whole, rfl⟩ <;> rintro held name isLast <;> cases isLast

/-- The later parts of a module grow together with the first. -/
theorem walks_module (path : Path) (next : Tree.Cursor) : ∀ (parts : List Tree) (position : Nat)
    (number : Int) (before : State), 2 ≤ position → before.OnlyNotes →
    (∀ part ∈ parts, part.sound = true ∧
      (part.isOf Kind.name = true ∨ part.isOf Kind.dot = true)) →
    (∀ index, index < parts.length →
      before.labelAt? (path ++ [position + index]) = some (.known .inclusion)) →
    (before.Stands number fun item => ∃ whole, item = some (.symbol (some .inclusion) whole)) →
    (Tree.Cursor.on number true).steps (Tree.terminalsFrom Tree.grammar.dottedName position parts) =
      some next →
    ∃ after,
      Chains settings before (Element.preorderFrom path position (parts.map Tree.toElement)) after ∧
      Uses (PartPlaces path position parts.length) before after ∧ after.LineFits next
  | [], position, number, before, _, _, _, _, stands, stepped => by
      cases stepped
      refine ⟨before, Chains.nil before, (uses_nothing before).congr ?_, stands.fits_behind⟩
      simp [PartPlaces]
  | part :: rest, position, number, before, behind, notes, areParts, marked, stands, stepped => by
      rcases areParts part List.mem_cons_self with ⟨sound, isPart⟩
      rcases Tree.exists_part sound isPart with ⟨kind, text, line, rfl, isKind, positive, present⟩
      simp only [Tree.terminalsFrom, Tree.terminals, Tree.roleIn_dottedName behind,
        List.singleton_append, Tree.Cursor.steps, Tree.step_part isKind, Option.bind_some] at stepped
      have held := marked 0 (by simp)
      rw [Nat.add_zero] at held
      refine CanRead.parts (canRead_marked stands positive isKind held (by simp) present
        fun _ => atTurn_takes_symbol) ?_ notes
      intro middle uses middleNotes nowStands
      refine walks_module path next rest (position + 1) line middle (by omega) middleNotes
        (fun part member => areParts part (List.mem_cons_of_mem _ member)) ?_ nowStands stepped
      intro index inside
      have label := marked (index + 1) (by simpa using inside)
      rwa [uses.labelAt?_other (by omega), Nat.add_right_comm, Nat.add_assoc]

/-- Dots without a mark keep the later parts of a dotted name apart. -/
theorem walks_names (path : Path) (next : Tree.Cursor) : ∀ (first : Tree) (rest : List Tree)
    (position : Nat) (number : Int) (before : State), 2 ≤ position → before.OnlyNotes →
    Tree.separated (Tree.isOf Kind.name) (Tree.isOf Kind.dot) (first :: rest) = true →
    (∀ part ∈ rest, part.sound = true) →
    (∀ index part, rest[index]? = some part →
      before.labelAt? (path ++ [position + index]) ≠ none → part.isOf Kind.name = true) →
    (before.Stands number fun _ => True) →
    (Tree.Cursor.on number true).steps (Tree.terminalsFrom Tree.grammar.dottedName position rest) =
      some next →
    ∃ after,
      Chains settings before (Element.preorderFrom path position (rest.map Tree.toElement)) after ∧
      Uses (PartPlaces path position rest.length) before after ∧ after.LineFits next
  | _, [], position, number, before, _, _, _, _, _, stands, stepped => by
      cases stepped
      refine ⟨before, Chains.nil before, (uses_nothing before).congr ?_, stands.fits_behind⟩
      simp [PartPlaces]
  | _, [_], _, _, _, _, _, separates, _, _, _, _ => by
      simp [Tree.separated] at separates
  | first, dot :: name :: rest, position, number, before, behind, notes, separates, sound, labels,
      stands, stepped => by
      simp only [Tree.separated, Bool.and_eq_true] at separates
      rcases separates with ⟨⟨_, isDot⟩, separatesRest⟩
      have isName : name.isOf Kind.name = true := Tree.separated_first separatesRest
      rcases Tree.exists_part (sound dot (by simp)) (Or.inr isDot) with
        ⟨dotKind, dotText, dotLine, rfl, dotIsPart, dotPositive, dotPresent⟩
      rcases Tree.exists_part (sound name (by simp)) (Or.inl isName) with
        ⟨nameKind, nameText, nameLine, rfl, nameIsPart, namePositive, namePresent⟩
      cases Tree.isOf_iff.mp isDot
      cases Tree.isOf_iff.mp isName
      have nameRole := Tree.roleIn_dottedName (Nat.le_succ_of_le behind)
      simp only [Tree.terminalsFrom, Tree.terminals, Tree.roleIn_dottedName behind, nameRole,
        List.singleton_append, Tree.Cursor.steps, Tree.step_part dotIsPart, Tree.step_part nameIsPart,
        Option.bind_some] at stepped
      -- A label would make a name of the dot.
      have unlabelled : before.labelAt? (path ++ [position]) = none := by
        apply Classical.byContradiction
        intro labelled
        have sameKind : (Kind.dot : Int) = Kind.name := Tree.isOf_iff.mp (labels 0 _ rfl labelled)
        exact absurd sameKind (by decide)
      refine CanRead.parts (canRead_plain stands dotPositive (by decide) (by decide) (by decide)
        unlabelled (token_other unlabelled dotPresent (by decide) (by decide) (by decide) (by decide)
          (by decide))) ?_ notes
      intro middle uses middleNotes behindDot
      refine CanRead.parts (canRead_anyName behindDot namePositive namePresent middleNotes
        fun _ => atTurn_takesAny_plain) ?_ middleNotes
      intro further usesMore furtherNotes nowStands
      refine walks_names path next (.leaf Kind.name nameText nameLine) rest (position + 1 + 1) nameLine
        further (by omega) furtherNotes separatesRest (fun part member => sound part (by simp [member]))
        ?_ nowStands stepped
      intro index part isPart labelled
      apply labels (index + 2) part isPart
      rw [usesMore.labelAt?_other (by omega), uses.labelAt?_other (by omega)] at labelled
      have same : position + (index + 2) = position + 1 + 1 + index := by omega
      rwa [same]

/-- What is noted for the parts of a dotted name: marks for names only, or the mark of a module for
each. -/
def PartLabels (state : State) (path : Path) (parts : List Tree) : Prop :=
  (∀ index part, parts[index]? = some part → state.labelAt? (path ++ [index + 1]) ≠ none →
      part.isOf Kind.name = true) ∨
    ∀ index, index < parts.length → state.labelAt? (path ++ [index + 1]) = some (.known .inclusion)

/-- A walk goes through the parts of a dotted name. -/
theorem walks_parts {parts : List Tree} {cursor : Tree.Cursor}
    (allSound : (Tree.branch Tree.grammar.dottedName parts).AllSound) (notes : before.OnlyNotes)
    (labels : before.PartLabels path parts) (fits : before.LineFits cursor)
    (stepped : cursor.steps (Tree.terminalsFrom Tree.grammar.dottedName 1 parts) = some next) :
    ∃ after,
      Chains settings before (Element.preorderFrom path 1 (parts.map Tree.toElement)) after ∧
      Uses (PartPlaces path 1 parts.length) before after ∧ after.LineFits next := by
  have production : Tree.separated (Tree.isOf Kind.name) (Tree.isOf Kind.dot) parts = true :=
    Tree.production_holds allSound.sound
  cases parts with
  | nil => cases production
  | cons first rest =>
      have isName : first.isOf Kind.name = true := Tree.separated_first production
      have firstSound : first.sound = true := (allSound.child List.mem_cons_self).sound
      have restSound : ∀ part ∈ rest, part.sound = true := fun part member =>
        (allSound.child (List.mem_cons_of_mem first member)).sound
      rcases Tree.exists_part firstSound (Or.inl isName) with
        ⟨kind, text, line, rfl, _, positive, present⟩
      cases Tree.isOf_iff.mp isName
      have role : Tree.roleIn Tree.grammar.dottedName 1 = .name := rfl
      simp only [Tree.terminalsFrom, Tree.terminals, role, List.singleton_append,
        Tree.Cursor.steps] at stepped
      cases cursor with
      | ended => cases stepped
      | on number behindSymbol =>
          have stands : before.Stands number fun item => behindSymbol = false → Line.TakesAny item :=
            fits
          rcases Option.bind_eq_some_iff.mp stepped with ⟨behindFirst, firstStep, restSteps⟩
          rcases step_name (by simp) firstStep with ⟨isWord, _⟩ | ⟨free, rfl⟩
          · cases isWord
          have takesAny (item : Option Item) (atTurn : AtTurn number
              (fun item => behindSymbol = false → Line.TakesAny item) line item) :
              Line.TakesAny item := atTurn_takesAny atTurn free
          have beside (middle : State) (uses : Uses (· = path ++ [1]) before middle) (index : Nat) :
              middle.labelAt? (path ++ [1 + 1 + index]) =
                before.labelAt? (path ++ [index + 1 + 1]) := by
            rw [uses.labelAt?_other (by omega), Nat.add_comm (1 + 1) index]
          rcases labels with onlyNames | isModule
          · refine CanRead.parts (canRead_anyName stands positive present notes takesAny) ?_ notes
            intro middle uses middleNotes nowStands
            refine walks_names path next _ rest (1 + 1) line middle (by omega) middleNotes production
              restSound ?_ nowStands restSteps
            intro index part isPart labelled
            rw [beside middle uses] at labelled
            exact onlyNames (index + 1) part isPart labelled
          · refine CanRead.parts (canRead_marked stands positive (Or.inl rfl) (isModule 0 (by simp))
              (by simp) present fun item atTurn => (takesAny item atTurn).takes _) ?_ notes
            intro middle uses middleNotes nowStands
            refine walks_module path next rest (1 + 1) line middle (by omega) middleNotes ?_ ?_
              nowStands restSteps
            · intro part member
              exact ⟨restSound part member,
                Tree.separated_all _ production part (List.mem_cons_of_mem _ member)⟩
            · intro index inside
              rw [beside middle uses]
              exact isModule (index + 1) (by simpa using inside)

end State

end CrossRef
