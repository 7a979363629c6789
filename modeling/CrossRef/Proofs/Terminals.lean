import CrossRef.Proofs.Passage
import CrossRef.Proofs.Preparation

/-!
# What terminals do

A terminal is the only node that writes.  It goes to its line and then does one of a few things: it
steps one indentation in or out, ends the source, or adds items to the line.  `State.Reads` lists
these outcomes of a visit that comes off, with what each of them tells about the terminal, so that
no later argument has to look into the plan of a terminal again.
-/

namespace CrossRef

namespace Double

theorem ratio_snd_pos (number : Double) : 0 < number.ratio.2 := by
  unfold ratio
  split
  · exact Nat.one_pos
  · exact Nat.two_pow_pos _

end Double

namespace Element

/-- An element equals at most one number. -/
theorem isNumber_unique {element : Element} {left right : Nat} (isLeft : element.isNumber left = true)
    (isRight : element.isNumber right = true) : left = right := by
  cases element with
  | bool value =>
      simp only [isNumber, decide_eq_true_eq] at isLeft isRight
      exact isLeft.symm.trans isRight
  | int value =>
      simp only [isNumber, decide_eq_true_eq] at isLeft isRight
      exact Int.ofNat.inj (isLeft.symm.trans isRight)
  | float value =>
      simp only [isNumber, Double.equals, Bool.and_eq_true, decide_eq_true_eq] at isLeft isRight
      have positive : ((value.ratio.2 : Nat) : Int) ≠ 0 := by
        have := value.ratio_snd_pos
        omega
      have same : (left : Int) * value.ratio.2 = right * value.ratio.2 :=
        isLeft.2.symm.trans isRight.2
      exact Int.ofNat.inj (Int.eq_of_mul_eq_mul_right positive same)
  | null | text value | node elements | list elements => simp [isNumber] at isLeft

theorem isOfKind_eq {node kind : Element} (hasKind : node.kind = .ok kind) (number : Nat) :
    node.isOfKind number = kind.isNumber number := by
  simp [isOfKind, hasKind]

/-- A node is of at most one kind. -/
theorem isOfKind_unique {node : Element} {left right : Nat} (isLeft : node.isOfKind left = true)
    (isRight : node.isOfKind right = true) : left = right := by
  unfold isOfKind at isLeft isRight
  split at isLeft
  next kind hasKind =>
    simp only [hasKind] at isRight
    exact isNumber_unique isLeft isRight
  next => simp at isLeft

theorem not_isOfKind {node : Element} {left : Nat} (isLeft : node.isOfKind left = true) (right : Nat)
    (different : left ≠ right) : node.isOfKind right = false := by
  cases isRight : node.isOfKind right with
  | false => rfl
  | true => exact absurd (isOfKind_unique isLeft isRight) different

/-- What can use a mark up is a name or a dot, and of no other kind. -/
theorem not_isOfKind_of_canHold {node : Element}
    (canHold : node.isOfKind Kind.name = true ∨ node.isOfKind Kind.dot = true) (kind : Nat)
    (notName : Kind.name ≠ kind) (notDot : Kind.dot ≠ kind) : node.isOfKind kind = false :=
  canHold.elim (not_isOfKind · kind notName) (not_isOfKind · kind notDot)

/-- The text of a terminal. -/
def wording (node : Element) : String :=
  match node.entry 1 with
  | .ok (.text value) => value
  | _ => ""

theorem wording_eq {node : Element} {text : String} (hasText : node.entry 1 = .ok (.text text)) :
    node.wording = text := by
  simp [wording, hasText]

end Element

namespace Step

/-- The steps that the terminal at a path may take. -/
@[simp]
def Spells (path : Path) : Step → Prop
  | .unmark place => place = path
  | .fail _ | .indent | .dedent | .turn _ | .add _ | .finish => True
  | _ => False

end Step

namespace Plan

theorem spells_addMade (path : Path) (item : Except Fault Item) :
    Consists (Step.Spells path) (addMade item) := by
  cases item <;> simp [addMade]

theorem spells_markedSymbol (path : Path) (text : Element) (label : Label) :
    Consists (Step.Spells path) (markedSymbol path text label) := by
  rw [markedSymbol, consists_cons]
  exact ⟨rfl, spells_addMade path _⟩

theorem spells_string (settings : Settings) (path : Path) (text : Element) :
    Consists (Step.Spells path) (string settings text) := by
  have plainly : Consists (Step.Spells path) (plainString text) := by
    unfold plainString
    split
    · exact spells_addMade path _
    · simp
  unfold string
  split
  · split
    · split
      · simp
      · exact plainly
    · simp
  · exact plainly

theorem spells_token (settings : Settings) (state : State) (path : Path) (kind text : Element) :
    Consists (Step.Spells path) (token settings state path kind text) := by
  unfold token
  split
  · exact consists_nil
  · split
    · simp
    · split
      · exact spells_string settings path text
      · split
        · unfold name
          split
          · exact spells_markedSymbol _ _ _
          · split <;> exact spells_addMade _ _
        · split
          · exact spells_markedSymbol _ _ _
          · split
            · simp
            · exact spells_addMade _ _

/-- A terminal notes nothing, and of all notes it can use up only its own mark. -/
theorem spells_terminal (settings : Settings) (state : State) (path : Path) (node : Element)
    (number : Int) : Consists (Step.Spells path) (terminal settings state path node number) := by
  unfold terminal
  split
  · simp
  · simp
  · split
    · simp
    · split
      · simp
      · rw [consists_append]
        refine ⟨?_, spells_token _ _ _ _ _⟩
        split <;> simp

end Plan

namespace State

/-- Goes to the line of a terminal; a string stays on the line at hand. -/
def turnTo (state : State) (line : Line) (number : Int) (node : Element) : Attempt :=
  if number ≠ line.number && !node.isOfKind Kind.string then state.commit (.int number)
  else ⟨state, none⟩

/-- The items that a terminal adds to its line if it holds no mark, or none that it could use. -/
inductive Writes (settings : Settings) (state : State) (path : Path) (node : Element) :
    List Item → Prop where
  | quoted {opening name closing : String} (isString : node.isOfKind Kind.string = true)
      (wanted : settings.stringSymbols = true)
      (found : quotedIdentifier? node.wording = some (opening, name, closing)) :
      Writes settings state path node [.plain opening, .symbol none name, .plain closing]
  | string (isString : node.isOfKind Kind.string = true)
      (unwanted : settings.stringSymbols = false ∨ quotedIdentifier? node.wording = none)
      (present : Text.escapeNewlines node.wording ≠ "") :
      Writes settings state path node [.plain (Text.escapeNewlines node.wording)]
  | keyword (isName : node.isOfKind Kind.name = true) (unmarked : state.labelAt? path = none)
      (reserved : settings.grammar.isKeyword (.text node.wording) = true)
      (present : node.wording ≠ "") :
      Writes settings state path node [.plain node.wording]
  | name (isName : node.isOfKind Kind.name = true) (unmarked : state.labelAt? path = none)
      (free : settings.grammar.isKeyword (.text node.wording) = false)
      (present : node.wording ≠ "") :
      Writes settings state path node [.symbol none node.wording]
  | other (notNewline : node.isOfKind Kind.newline = false)
      (notIndent : node.isOfKind Kind.indent = false)
      (notString : node.isOfKind Kind.string = false) (notName : node.isOfKind Kind.name = false)
      (unmarked : node.isOfKind Kind.dot = true → state.labelAt? path = none)
      (notEnd : node.isOfKind Kind.endMarker = false) (present : node.wording ≠ "") :
      Writes settings state path node [.plain node.wording]

/-- What a visit of a terminal that comes off does; all but a dedent go to the terminal's line
first. -/
inductive Reads (settings : Settings) (before : State) (path : Path) (node : Element) (number : Int)
    (after : State) : Prop where
  | dedent (isDedent : node.isOfKind Kind.dedent = true) (went : before.dedent = ⟨after, none⟩)
  | newline (line : Line) (opened : before.line = some line)
      (isNewline : node.isOfKind Kind.newline = true)
      (turned : before.turnTo line number node = ⟨after, none⟩)
  | indent (line : Line) (middle : State) (opened : before.line = some line)
      (isIndent : node.isOfKind Kind.indent = true)
      (turned : before.turnTo line number node = ⟨middle, none⟩)
      (went : after = { middle with indentation := middle.indentation + 1 })
  | finish (line : Line) (middle : State) (opened : before.line = some line)
      (isEnd : node.isOfKind Kind.endMarker = true)
      (turned : before.turnTo line number node = ⟨middle, none⟩)
      (ended : middle.commit .null = ⟨after, none⟩)
  | marked (line : Line) (middle : State) (mark : Mark) (opened : before.line = some line)
      (canHold : node.isOfKind Kind.name = true ∨ node.isOfKind Kind.dot = true)
      (held : before.labelAt? path = some (.known mark)) (noEnd : mark ≠ .functionEnd)
      (present : node.wording ≠ "")
      (turned : before.turnTo line number node = ⟨middle, none⟩)
      (added : (middle.dropMark path).addItem (.symbol (some mark) node.wording) = ⟨after, none⟩)
  | written (line : Line) (middle : State) (items : List Item) (opened : before.line = some line)
      (notDedent : node.isOfKind Kind.dedent = false)
      (writes : Writes settings before path node items)
      (turned : before.turnTo line number node = ⟨middle, none⟩)
      (added : middle.takeAll settings.grammar (items.map .add) = ⟨after, none⟩)

variable {settings : Settings} {before after : State} {path : Path} {node : Element} {number : Int}

/-! ## What the single steps do when they come off -/

theorem commit_cases {next : Element} (committed : before.commit next = ⟨after, none⟩) :
    (∃ line, Line.start next = .ok line ∧ after = { before.flush with line := some line }) ∨
      after = { before.flush with line := none } := by
  simp only [commit] at committed
  split at committed
  · split at committed
    next line started =>
      cases committed
      exact Or.inl ⟨line, started, rfl⟩
    next => cases committed
  · cases committed
    exact Or.inr rfl

theorem turnTo_cases {line : Line} (turned : before.turnTo line number node = ⟨after, none⟩) :
    number ≠ line.number ∧ node.isOfKind Kind.string = false ∧
        before.commit (.int number) = ⟨after, none⟩ ∨
      (number = line.number ∨ node.isOfKind Kind.string = true) ∧ after = before := by
  unfold turnTo at turned
  split at turned
  next leaves =>
    simp only [Bool.and_eq_true, decide_eq_true_eq, Bool.not_eq_true'] at leaves
    exact Or.inl ⟨leaves.1, leaves.2, turned⟩
  next stays =>
    cases turned
    refine Or.inr ⟨?_, rfl⟩
    by_cases same : number = line.number
    · exact Or.inl same
    · right
      simpa [same] using stays

/-- Turning to a terminal keeps the line at hand, or begins one with the number of the terminal. -/
theorem turnTo_line {line reached : Line} (turned : before.turnTo line number node = ⟨after, none⟩)
    (opened : before.line = some line) (isReached : after.line = some reached) :
    (number = line.number ∨ node.isOfKind Kind.string = true) ∧ reached = line ∨
      number ≠ line.number ∧ node.isOfKind Kind.string = false ∧ number = reached.number ∧
        reached.items = [] := by
  rcases turnTo_cases turned with ⟨leaves, notString, committed⟩ | ⟨stays, rfl⟩
  · rcases commit_cases committed with ⟨begun, started, rfl⟩ | rfl
    · cases isReached
      simp only [Line.start] at started
      split at started
      next positive =>
        cases started
        refine Or.inr ⟨leaves, notString, ?_, rfl⟩
        simp only
        omega
      next => cases started
    · cases isReached
  · exact Or.inl ⟨stays, Option.some.inj (isReached.symm.trans opened)⟩

theorem addItem_cases {item : Item} (added : before.addItem item = ⟨after, none⟩) :
    ∃ line longer, before.line = some line ∧ line.add item = .ok longer ∧
      after = { before with line := some longer } := by
  unfold addItem at added
  split at added
  next => cases added
  next line opened =>
    split at added
    next longer lengthened =>
      cases added
      exact ⟨line, longer, opened, lengthened, rfl⟩
    next => cases added

theorem dedent_cases (went : before.dedent = ⟨after, none⟩) :
    before.indentation - 1 = before.functionLevel ∧
        State.addItem { before with indentation := before.indentation - 1, functionLevel := -1 }
          (.symbol (some .functionEnd) "") = ⟨after, none⟩ ∨
      before.indentation - 1 ≠ before.functionLevel ∧
        after = { before with indentation := before.indentation - 1 } := by
  unfold dedent at went
  simp only at went
  split at went
  next ends => exact Or.inl ⟨ends, went⟩
  next goesOn =>
    cases went
    exact Or.inr ⟨goesOn, rfl⟩

theorem takeAll_add_cons {grammar : Grammar} {item : Item} {rest : List Item}
    (added : before.takeAll grammar ((item :: rest).map .add) = ⟨after, none⟩) :
    ∃ middle, before.addItem item = ⟨middle, none⟩ ∧
      middle.takeAll grammar (rest.map .add) = ⟨after, none⟩ := by
  rw [List.map_cons, takeAll] at added
  split at added
  next middle taken => exact ⟨middle, taken, added⟩
  next => cases added

theorem takeAll_append (grammar : Grammar) (start : State) (first second : Plan) :
    start.takeAll grammar (first ++ second) =
      match start.takeAll grammar first with
      | ⟨middle, none⟩ => middle.takeAll grammar second
      | failed => failed := by
  induction first generalizing start with
  | nil => rfl
  | cons step rest ih =>
      rw [List.cons_append, takeAll, takeAll]
      rcases start.take grammar step with ⟨next, _ | fault⟩
      · exact ih next
      · rfl

theorem exists_takeAll_of_append {grammar : Grammar} {first second : Plan} {start finish : State}
    (taken : start.takeAll grammar (first ++ second) = ⟨finish, none⟩) :
    ∃ middle, start.takeAll grammar first = ⟨middle, none⟩ ∧
      middle.takeAll grammar second = ⟨finish, none⟩ := by
  rw [takeAll_append] at taken
  rcases early : start.takeAll grammar first with ⟨middle, _ | fault⟩
  · rw [early] at taken
    exact ⟨middle, rfl, taken⟩
  · rw [early] at taken
    cases taken

theorem takeAll_fail (grammar : Grammar) (state : State) (fault : Fault) (finish : State) :
    state.takeAll grammar [.fail fault] ≠ ⟨finish, none⟩ := by
  simp [takeAll]

/-- Text that is added must have been made. -/
theorem takeAll_makePlain {grammar : Grammar} {text : Element}
    (taken : before.takeAll grammar (Plan.addMade (Item.makePlain text)) = ⟨after, none⟩) :
    ∃ value, text = .text value ∧ value ≠ "" ∧
      before.takeAll grammar ([Item.plain value].map .add) = ⟨after, none⟩ := by
  cases text with
  | text value =>
      simp only [Item.makePlain] at taken
      split at taken
      · exact absurd taken (takeAll_fail _ _ _ _)
      next present =>
        refine ⟨value, rfl, ?_, taken⟩
        simpa using present
  | null | bool value | int value | float value | node elements | list elements =>
      exact absurd taken (takeAll_fail _ _ _ _)

theorem takeAll_makeSymbol_absent {grammar : Grammar} {text : Element}
    (taken : before.takeAll grammar (Plan.addMade (Item.makeSymbol text .absent)) = ⟨after, none⟩) :
    ∃ value, text = .text value ∧ value ≠ "" ∧
      before.takeAll grammar ([Item.symbol none value].map .add) = ⟨after, none⟩ := by
  cases text with
  | text value =>
      simp only [Item.makeSymbol, Label.absent, Label.toMark, Element.isPresent] at taken
      split at taken
      · exact absurd taken (takeAll_fail _ _ _ _)
      next present =>
        refine ⟨value, rfl, ?_, ?_⟩
        · simpa using present
        · simpa [Plan.addMade] using taken
  | null | bool value | int value | float value | node elements | list elements =>
      exact absurd taken (takeAll_fail _ _ _ _)

/-- A symbol is made of any text but the empty one, unless its mark ends a function. -/
theorem makeSymbol_known {mark : Mark} (noEnd : mark ≠ .functionEnd) (text : String) :
    Item.makeSymbol (.text text) (.known mark) =
      if text.isEmpty then .error .unnamedSymbol else .ok (.symbol (some mark) text) := by
  cases mark <;> first | exact absurd rfl noEnd | rfl

theorem takeAll_markedSymbol {grammar : Grammar} {text : Element} {mark : Mark}
    (noEnd : mark ≠ .functionEnd)
    (taken : before.takeAll grammar (Plan.markedSymbol path text (.known mark)) = ⟨after, none⟩) :
    ∃ value, text = .text value ∧ value ≠ "" ∧
      (before.dropMark path).addItem (.symbol (some mark) value) = ⟨after, none⟩ := by
  cases text with
  | text value =>
      simp only [Plan.markedSymbol, makeSymbol_known noEnd] at taken
      rw [takeAll] at taken
      simp only [take] at taken
      split at taken
      · exact absurd taken (takeAll_fail _ _ _ _)
      next present =>
        refine ⟨value, rfl, ?_, ?_⟩
        · simpa using present
        · simp only [Plan.addMade, takeAll, take] at taken
          split at taken
          next next added =>
            rw [added]
            exact taken
          next next fault added => simp at taken
  | null | bool value | int value | float value | node elements | list elements =>
      simp [Plan.markedSymbol, Item.makeSymbol, Plan.addMade, takeAll] at taken

/-- A string is written as plain text, or as a symbol between its quotes. -/
theorem takeAll_string {middle : State} {text : Element} (hasText : node.entry 1 = .ok text)
    (isString : node.isOfKind Kind.string = true)
    (taken : middle.takeAll settings.grammar (Plan.string settings text) = ⟨after, none⟩) :
    ∃ items, Writes settings before path node items ∧
      middle.takeAll settings.grammar (items.map .add) = ⟨after, none⟩ := by
  cases text with
  | text value =>
      have wording := Element.wording_eq hasText
      have plainly (unwanted : settings.stringSymbols = false ∨ quotedIdentifier? value = none)
          (taken : middle.takeAll settings.grammar (Plan.plainString (.text value)) = ⟨after, none⟩) :
          ∃ items, Writes settings before path node items ∧
            middle.takeAll settings.grammar (items.map .add) = ⟨after, none⟩ := by
        rcases takeAll_makePlain taken with ⟨escaped, isText, present, added⟩
        cases isText
        rw [← wording] at unwanted present added
        exact ⟨_, .string isString unwanted present, added⟩
      unfold Plan.string at taken
      split at taken
      next wanted =>
        simp only at taken
        split at taken
        next opening name closing found =>
          rw [← wording] at found
          exact ⟨_, .quoted isString wanted found, taken⟩
        next notFound => exact plainly (Or.inr notFound) taken
      next unwanted => exact plainly (Or.inl (by simpa using unwanted)) taken
  | null | bool value | int value | float value | node elements | list elements =>
      unfold Plan.string at taken
      split at taken <;> exact absurd taken (takeAll_fail _ _ _ _)

/-- A name is written as a symbol, or as plain text if it is a keyword without a mark. -/
theorem takeAll_name {middle : State} {line : Line} {text : Element} (notes : before.OnlyNotes)
    (hasText : node.entry 1 = .ok text) (opened : before.line = some line)
    (isName : node.isOfKind Kind.name = true)
    (turned : before.turnTo line number node = ⟨middle, none⟩)
    (taken : middle.takeAll settings.grammar (Plan.name settings before path text) = ⟨after, none⟩) :
    Reads settings before path node number after := by
  have notDedent := Element.not_isOfKind isName Kind.dedent (by decide)
  unfold Plan.name at taken
  split at taken
  next label held =>
    rcases notes.labelAt held with ⟨mark, noEnd, rfl⟩
    rcases takeAll_markedSymbol noEnd taken with ⟨value, rfl, present, added⟩
    rw [← Element.wording_eq hasText] at present added
    exact .marked line middle mark opened (Or.inl isName) held noEnd present turned added
  next unmarked =>
    split at taken
    next reserved =>
      rcases takeAll_makePlain taken with ⟨value, rfl, present, added⟩
      rw [← Element.wording_eq hasText] at present added reserved
      exact .written line middle _ opened notDedent
        (.keyword isName unmarked reserved present) turned added
    next free =>
      rcases takeAll_makeSymbol_absent taken with ⟨value, rfl, present, added⟩
      rw [← Element.wording_eq hasText] at present added free
      exact .written line middle _ opened notDedent
        (.name isName unmarked (by simpa using free) present) turned added

/-- What the text of a terminal makes of the line that has been turned to. -/
theorem takeAll_token {middle : State} {line : Line} {kind text : Element} (notes : before.OnlyNotes)
    (hasKind : node.kind = .ok kind) (hasText : node.entry 1 = .ok text)
    (notDedent : node.isOfKind Kind.dedent = false) (opened : before.line = some line)
    (turned : before.turnTo line number node = ⟨middle, none⟩)
    (taken : middle.takeAll settings.grammar (Plan.token settings before path kind text) =
      ⟨after, none⟩) : Reads settings before path node number after := by
  simp only [Plan.token, ← Element.isOfKind_eq hasKind] at taken
  split at taken
  next isNewline =>
    cases taken
    exact .newline line opened isNewline turned
  next notNewline =>
    split at taken
    next isIndent =>
      cases taken
      exact .indent line middle opened isIndent turned rfl
    next notIndent =>
      split at taken
      next isString =>
        have written : ∃ items, Writes settings before path node items ∧
            middle.takeAll settings.grammar (items.map .add) = ⟨after, none⟩ :=
          takeAll_string hasText isString taken
        rcases written with ⟨items, writes, added⟩
        exact .written line middle items opened notDedent writes turned added
      next notString =>
        split at taken
        next isName => exact takeAll_name notes hasText opened isName turned taken
        next notName =>
          split at taken
          next label isDot held =>
            rcases notes.labelAt held with ⟨mark, noEnd, rfl⟩
            rcases takeAll_markedSymbol noEnd taken with ⟨value, rfl, present, added⟩
            rw [← Element.wording_eq hasText] at present added
            exact .marked line middle mark opened (Or.inr isDot) held noEnd present turned added
          next notHeld =>
            split at taken
            next isEnd =>
              rw [takeAll] at taken
              split at taken
              next next ended =>
                cases taken
                exact .finish line middle opened isEnd turned ended
              next => simp at taken
            next notEnd =>
              rcases takeAll_makePlain taken with ⟨value, rfl, present, added⟩
              rw [← Element.wording_eq hasText] at present added
              refine .written line middle _ opened notDedent
                (.other (by simpa using notNewline) (by simpa using notIndent)
                  (by simpa using notString) (by simpa using notName) ?_ (by simpa using notEnd)
                  present) turned added
              intro isDot
              cases held : before.labelAt? path with
              | none => rfl
              | some label => exact absurd held (notHeld label isDot)

/-- A visit of a terminal that comes off has one of the listed outcomes. -/
theorem visitTerminal_reads (notes : before.OnlyNotes)
    (visited : before.visitTerminal settings path node number = ⟨after, none⟩) :
    Reads settings before path node number after := by
  unfold visitTerminal Plan.terminal at visited
  split at visited
  · exact absurd visited (takeAll_fail _ _ _ _)
  · exact absurd visited (takeAll_fail _ _ _ _)
  next kind text hasKind hasText =>
    rw [← Element.isOfKind_eq hasKind] at visited
    split at visited
    next isDedent =>
      rw [takeAll] at visited
      split at visited
      next next went =>
        cases visited
        exact .dedent isDedent went
      next => simp at visited
    next notDedent =>
      split at visited
      · exact absurd visited (takeAll_fail _ _ _ _)
      next line opened =>
        rcases exists_takeAll_of_append visited with ⟨middle, turned, taken⟩
        apply takeAll_token notes hasKind hasText (by simpa using notDedent) opened _ taken
        rw [turnTo, Element.isOfKind_eq hasKind]
        split at turned
        next turns =>
          rw [if_pos turns]
          rw [takeAll] at turned
          split at turned
          next next went =>
            cases turned
            exact went
          next => simp at turned
        next stays =>
          rw [if_neg stays]
          exact turned

/-- Two states that agree on everything noted for nodes still to come. -/
structure SameNotes (before after : State) : Prop where
  marks : after.marks = before.marks
  awaited : after.awaited = before.awaited
  importHalves : after.importHalves = before.importHalves
  importing : after.importing = before.importing
  assigning : after.assigning = before.assigning

theorem SameNotes.refl (state : State) : SameNotes state state :=
  ⟨rfl, rfl, rfl, rfl, rfl⟩

theorem SameNotes.trans {first second third : State} (early : SameNotes first second)
    (late : SameNotes second third) : SameNotes first third :=
  ⟨late.marks.trans early.marks, late.awaited.trans early.awaited,
    late.importHalves.trans early.importHalves, late.importing.trans early.importing,
    late.assigning.trans early.assigning⟩

theorem SameNotes.dropMark {first second : State} (same : SameNotes first second) (path : Path) :
    SameNotes (first.dropMark path) (second.dropMark path) := by
  refine ⟨?_, same.awaited, same.importHalves, same.importing, same.assigning⟩
  simp [State.dropMark, same.marks]

theorem flush_sameNotes (state : State) : SameNotes state state.flush := by
  unfold flush
  split
  · exact ⟨rfl, rfl, rfl, rfl, rfl⟩
  · split <;> exact ⟨rfl, rfl, rfl, rfl, rfl⟩

theorem commit_sameNotes (state : State) (next : Element) :
    SameNotes state (state.commit next).state := by
  have flushed := state.flush_sameNotes
  simp only [commit]
  split
  · split
    · exact ⟨flushed.marks, flushed.awaited, flushed.importHalves, flushed.importing,
        flushed.assigning⟩
    · exact flushed
  · exact ⟨flushed.marks, flushed.awaited, flushed.importHalves, flushed.importing,
      flushed.assigning⟩

theorem addItem_sameNotes (state : State) (item : Item) :
    SameNotes state (state.addItem item).state := by
  unfold addItem
  split
  · exact SameNotes.refl state
  · split <;> exact ⟨rfl, rfl, rfl, rfl, rfl⟩

theorem dedent_sameNotes (state : State) : SameNotes state state.dedent.state := by
  unfold dedent
  simp only
  split
  · have same := addItem_sameNotes
      { state with indentation := state.indentation - 1, functionLevel := -1 }
      (.symbol (some .functionEnd) "")
    exact ⟨same.marks, same.awaited, same.importHalves, same.importing, same.assigning⟩
  · exact ⟨rfl, rfl, rfl, rfl, rfl⟩

theorem turnTo_sameNotes (state : State) (line : Line) (number : Int) (node : Element) :
    SameNotes state (state.turnTo line number node).state := by
  unfold turnTo
  split
  · exact commit_sameNotes state _
  · exact SameNotes.refl state

theorem takeAll_add_sameNotes (grammar : Grammar) (state : State) (items : List Item) :
    SameNotes state (state.takeAll grammar (items.map .add)).state := by
  apply takeAll_preserves (motive := SameNotes state) _ (SameNotes.refl state)
  intro step member middle same
  rcases List.mem_map.mp member with ⟨item, _, rfl⟩
  exact same.trans (addItem_sameNotes middle item)

/-- A terminal leaves all notes as they are, but for its own mark, which it uses up. -/
theorem Reads.sameNotes (reads : Reads settings before path node number after) :
    SameNotes before after ∨ SameNotes (before.dropMark path) after := by
  cases reads with
  | dedent isDedent went =>
      left
      simpa [went] using before.dedent_sameNotes
  | newline line opened isNewline turned =>
      left
      simpa [turned] using before.turnTo_sameNotes line number node
  | indent line middle opened isIndent turned went =>
      left
      have same := before.turnTo_sameNotes line number node
      rw [turned] at same
      rw [went]
      exact ⟨same.marks, same.awaited, same.importHalves, same.importing, same.assigning⟩
  | finish line middle opened isEnd turned ended =>
      left
      have early := before.turnTo_sameNotes line number node
      have late := middle.commit_sameNotes .null
      rw [turned] at early
      rw [ended] at late
      exact early.trans late
  | marked line middle mark opened canHold held noEnd present turned added =>
      right
      have early := before.turnTo_sameNotes line number node
      have late := (middle.dropMark path).addItem_sameNotes (.symbol (some mark) node.wording)
      rw [turned] at early
      rw [added] at late
      exact (early.dropMark path).trans late
  | written line middle items opened notDedent writes turned added =>
      left
      have early := before.turnTo_sameNotes line number node
      have late := middle.takeAll_add_sameNotes settings.grammar items
      rw [turned] at early
      rw [added] at late
      exact early.trans late

theorem SameNotes.onlyNotes (same : SameNotes before after) (notes : before.OnlyNotes) :
    after.OnlyNotes := by
  unfold OnlyNotes
  rw [same.marks]
  exact notes

theorem onlyNotes_empty : ({} : State).OnlyNotes := by
  simp [OnlyNotes]

/-- No visit notes the end of a function. -/
theorem Passes.onlyNotes (passes : before.Passes settings path node after)
    (notes : before.OnlyNotes) : after.OnlyNotes := by
  cases passes with
  | construct isConstruct visited =>
      have kept := visitConstruct_onlyNotes settings path node notes
      rwa [visited] at kept
  | terminal number isTerminal numbered visited =>
      rcases (visitTerminal_reads notes visited).sameNotes with same | same
      · exact same.onlyNotes notes
      · exact same.onlyNotes (notes.dropMark path)

theorem Passage.onlyNotes {meetings : List (State × Path × Element)}
    (passage : Passage settings before meetings after) (notes : before.OnlyNotes) : after.OnlyNotes :=
  passage.preserves (fun _ _ _ _ notes passes => passes.onlyNotes notes) notes

end State

end CrossRef
