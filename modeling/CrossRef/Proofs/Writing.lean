import CrossRef.Proofs.Bookkeeping
import CrossRef.Proofs.LineForm

/-!
# Terminals that can be written

A line takes plain text and the end of a function at any time, but a symbol only behind something
else or behind a symbol with the same mark.  A visit of a sound terminal comes off if the line at
hand takes what it adds.  The lemmas here say so for each sort of terminal, with what they leave at
the end of the line, since that is what the next terminal meets; `passes_leaf` puts them together
along a cursor.
-/

namespace CrossRef

namespace Line

/-- Whether a symbol with the given mark can follow the last item of a line. -/
def Takes (mark : Option Mark) (last : Option Item) : Prop :=
  ∀ held name, last = some (.symbol held name) → held = mark

/-- Whether any symbol can follow the last item of a line. -/
def TakesAny (last : Option Item) : Prop :=
  ∀ held name, last ≠ some (.symbol held name)

theorem TakesAny.takes {last : Option Item} (takesAny : TakesAny last) (mark : Option Mark) :
    Takes mark last := by
  intro held name isLast
  exact absurd isLast (takesAny held name)

theorem add_plain (line : Line) (text : String) :
    ∃ longer whole, line.add (.plain text) = .ok longer ∧ longer.number = line.number ∧
      longer.items.getLast? = some (.plain whole) := by
  cases isLast : line.items.getLast? with
  | none => exact ⟨line.push (.plain text), text, by simp [add, isLast], rfl, by simp⟩
  | some last =>
      cases last with
      | symbol held name =>
          refine ⟨line.push (.plain text), text, ?_, rfl, by simp⟩
          simp [add, isLast, Item.isFunctionEnd]
      | plain before =>
          refine ⟨line.replaceLast (.plain (before ++ " " ++ text)), before ++ " " ++ text, ?_, rfl,
            by simp⟩
          simp [add, isLast, Item.isFunctionEnd, Item.merge]

theorem add_symbol {line : Line} {mark : Option Mark} (takes : Takes mark line.items.getLast?)
    (noEnd : mark ≠ some .functionEnd) (name : String) :
    ∃ longer whole, line.add (.symbol mark name) = .ok longer ∧ longer.number = line.number ∧
      longer.items.getLast? = some (.symbol mark whole) := by
  have isNoEnd : (Item.symbol mark name).isFunctionEnd = false := by
    simp [Item.isFunctionEnd_eq, noEnd]
  cases isLast : line.items.getLast? with
  | none => exact ⟨line.push (.symbol mark name), name, by simp [add, isLast], rfl, by simp⟩
  | some last =>
      cases last with
      | symbol held before =>
          have same : held = mark := takes held before isLast
          refine ⟨line.replaceLast (.symbol mark (before ++ name)), before ++ name, ?_, rfl,
            by simp⟩
          simp [add, isLast, isNoEnd, Item.merge, same]
      | plain text =>
          refine ⟨line.push (.symbol mark name), name, ?_, rfl, by simp⟩
          simp [add, isLast, isNoEnd]

theorem add_functionEnd (line : Line) :
    ∃ longer, line.add (.symbol (some .functionEnd) "") = .ok longer ∧
      longer.number = line.number := by
  unfold add
  split
  · exact ⟨_, rfl, rfl⟩
  · simp only [Item.isFunctionEnd, if_true]
    split <;> exact ⟨_, rfl, rfl⟩

end Line

namespace State

/-- The line at hand has the given number, and its last item is as stated. -/
def Stands (state : State) (number : Int) (last : Option Item → Prop) : Prop :=
  ∃ line, state.line = some line ∧ (line.number : Int) = number ∧ last line.items.getLast?

variable {settings : Settings} {state before : State} {number : Int} {last : Option Item → Prop}
  {path : Path}

theorem Stands.imp {weaker : Option Item → Prop} (stands : state.Stands number last)
    (implies : ∀ item, last item → weaker item) : state.Stands number weaker := by
  rcases stands with ⟨line, opened, isNumber, isLast⟩
  exact ⟨line, opened, isNumber, implies _ isLast⟩

theorem addItem_of_add {line longer : Line} {item : Item} (opened : state.line = some line)
    (added : line.add item = .ok longer) :
    state.addItem item = ⟨{ state with line := some longer }, none⟩ := by
  simp [addItem, opened, added]

theorem Stands.addPlain (stands : state.Stands number last) (text : String) :
    ∃ after, state.addItem (.plain text) = ⟨after, none⟩ ∧ SameNotes state after ∧
      after.Stands number fun item => ∃ whole, item = some (.plain whole) := by
  rcases stands with ⟨line, opened, isNumber, _⟩
  rcases line.add_plain text with ⟨longer, whole, added, sameNumber, isLast⟩
  refine ⟨_, addItem_of_add opened added, ⟨rfl, rfl, rfl, rfl, rfl⟩, longer, rfl, ?_, whole, isLast⟩
  rw [sameNumber, isNumber]

theorem Stands.addSymbol (stands : state.Stands number last) {mark : Option Mark}
    (takes : ∀ item, last item → Line.Takes mark item) (noEnd : mark ≠ some .functionEnd)
    (name : String) :
    ∃ after, state.addItem (.symbol mark name) = ⟨after, none⟩ ∧ SameNotes state after ∧
      after.Stands number fun item => ∃ whole, item = some (.symbol mark whole) := by
  rcases stands with ⟨line, opened, isNumber, isLast⟩
  rcases Line.add_symbol (takes _ isLast) noEnd name with
    ⟨longer, whole, added, sameNumber, nowLast⟩
  refine ⟨_, addItem_of_add opened added, ⟨rfl, rfl, rfl, rfl, rfl⟩, longer, rfl, ?_, whole, nowLast⟩
  rw [sameNumber, isNumber]

theorem Stands.dedent (stands : state.Stands number last) :
    ∃ after, state.dedent = ⟨after, none⟩ ∧ SameNotes state after ∧
      after.Stands number fun _ => True := by
  rcases stands with ⟨line, opened, isNumber, _⟩
  unfold State.dedent
  simp only
  split
  · rcases line.add_functionEnd with ⟨longer, added, sameNumber⟩
    let outside : State :=
      { state with indentation := state.indentation - 1, functionLevel := -1 }
    have stillOpened : outside.line = some line := opened
    refine ⟨_, addItem_of_add stillOpened added, ⟨rfl, rfl, rfl, rfl, rfl⟩, longer, rfl, ?_, trivial⟩
    rw [sameNumber, isNumber]
  · exact ⟨_, rfl, ⟨rfl, rfl, rfl, rfl, rfl⟩, line, opened, isNumber, trivial⟩

/-- What the last item can be once the line of a terminal has been turned to. -/
def AtTurn (number : Int) (last : Option Item → Prop) (target : Int) (item : Option Item) : Prop :=
  item = none ∨ number = target ∧ last item

/-- Turning to a line with a positive number comes off. -/
theorem Stands.turn {line : Line} (opened : state.line = some line)
    (stands : state.Stands number last) {target : Int} (positive : 1 ≤ target) {node : Element}
    (notString : node.isOfKind Kind.string = false) :
    ∃ after, state.turnTo line target node = ⟨after, none⟩ ∧ SameNotes state after ∧
      after.Stands target (AtTurn number last target) := by
  have same := state.turnTo_sameNotes line target node
  rcases stands with ⟨current, isCurrent, isNumber, isLast⟩
  rw [opened] at isCurrent
  cases isCurrent
  unfold turnTo at same ⊢
  by_cases stays : target = line.number
  · simp only [stays, ne_eq, not_true_eq_false, decide_false, Bool.false_and, Bool.false_eq_true,
      if_false] at same ⊢
    refine ⟨state, rfl, same, line, opened, rfl, Or.inr ⟨isNumber.symm, isLast⟩⟩
  · have started : Line.start (.int target) = .ok { number := target.toNat } := by
      have isPositive : 0 < target := by omega
      simp only [Line.start, isPositive, if_true]
    have present : (Element.int target).isPresent = true := by
      simp only [Element.isPresent, decide_eq_true_eq]
      omega
    simp only [stays, notString, ne_eq, not_false_eq_true, decide_true, Bool.not_false, Bool.and_self,
      if_true, commit, present, started] at same ⊢
    refine ⟨_, rfl, same, { number := target.toNat }, rfl, ?_, Or.inl rfl⟩
    simp only
    omega

/-- A visit of a terminal comes off, uses up the terminal's mark, and leaves a state as stated. -/
def CanRead (settings : Settings) (before : State) (path : Path) (tree : Tree)
    (outcome : State → Prop) : Prop :=
  ∃ after, before.Passes settings path tree.toElement after ∧
    SameNotes (before.dropMark path) after ∧ outcome after

variable {kind : Int} {text : String} {line : Int}

theorem CanRead.imp {tree : Tree} {outcome weaker : State → Prop}
    (reads : CanRead settings before path tree outcome)
    (implies : ∀ after, outcome after → weaker after) :
    CanRead settings before path tree weaker := by
  rcases reads with ⟨after, passes, same, holds⟩
  exact ⟨after, passes, same, implies after holds⟩

theorem isOfKind_leaf (kind : Int) (text : String) (line : Int) (number : Nat) :
    (Tree.leaf kind text line).toElement.isOfKind number = decide (kind = number) :=
  rfl

theorem canRead_of_visit {after : State} {outcome : State → Prop}
    (isTerminal : kind < Kind.firstConstruct)
    (visited : before.visitTerminal settings path (Tree.leaf kind text line).toElement line =
      ⟨after, none⟩)
    (same : SameNotes (before.dropMark path) after) (holds : outcome after) :
    CanRead settings before path (.leaf kind text line) outcome := by
  refine ⟨after, .terminal line ?_ rfl visited, same, holds⟩
  have below : ¬ (Kind.firstConstruct : Int) ≤ kind := by omega
  simp [Element.isConstruct, Tree.kind, Element.atLeast, below]

/-- A terminal that is no dedent and no string is read on its own line. -/
theorem Stands.visit (stands : before.Stands number last) (settings : Settings) (path : Path)
    (kind : Int) (text : String) (positive : 1 ≤ line) (notDedent : kind ≠ Kind.dedent)
    (notString : kind ≠ Kind.string) :
    ∃ middle, SameNotes before middle ∧ middle.Stands line (AtTurn number last line) ∧
      before.visitTerminal settings path (Tree.leaf kind text line).toElement line =
        middle.takeAll settings.grammar
          (Plan.token settings before path (.int kind) (.text text)) := by
  rcases stands with ⟨current, opened, isNumber, isLast⟩
  have isNoString : (Tree.leaf kind text line).toElement.isOfKind Kind.string = false := by
    rw [isOfKind_leaf]
    simpa using notString
  rcases Stands.turn opened ⟨current, opened, isNumber, isLast⟩ positive isNoString with
    ⟨middle, turned, same, nowStands⟩
  refine ⟨middle, same, nowStands, ?_⟩
  have entry : (Tree.leaf kind text line).toElement.entry 1 = .ok (.text text) := rfl
  have isNoDedent : (Element.int kind).isNumber Kind.dedent = false := by
    simpa [Element.isNumber] using notDedent
  have isOther : (Element.int kind).isNumber Kind.string = false := by
    simpa [Element.isNumber] using notString
  unfold visitTerminal Plan.terminal
  simp only [Tree.kind_toElement, Tree.kind, entry, opened, isNoDedent, Bool.false_eq_true, if_false]
  unfold turnTo at turned
  rw [isNoString] at turned
  rw [isOther]
  split at turned
  next turns =>
    rw [if_pos turns]
    simp [takeAll, turned]
  next stays =>
    rw [if_neg stays]
    cases turned
    rfl

theorem unlabelled_same {middle after : State} (unlabelled : before.labelAt? path = none)
    (early : SameNotes before middle) (late : SameNotes middle after) :
    SameNotes (before.dropMark path) after := by
  rw [dropMark_of_unlabelled unlabelled]
  exact early.trans late

theorem canRead_dedent (stands : before.Stands number last)
    (unlabelled : before.labelAt? path = none) :
    CanRead settings before path (.leaf Kind.dedent text line) fun after =>
      after.Stands number fun _ => True := by
  rcases stands.dedent with ⟨after, went, same, nowStands⟩
  refine canRead_of_visit (by decide) ?_ (unlabelled_same unlabelled (SameNotes.refl before) same)
    nowStands
  have plan : Plan.terminal settings before path (Tree.leaf Kind.dedent text line).toElement line =
      [.dedent] := rfl
  simp [visitTerminal, plan, takeAll, went]

theorem canRead_newline (stands : before.Stands number last) (positive : 1 ≤ line)
    (unlabelled : before.labelAt? path = none) :
    CanRead settings before path (.leaf Kind.newline text line) fun after =>
      after.Stands line (AtTurn number last line) := by
  rcases stands.visit settings path Kind.newline text positive (by decide) (by decide) with
    ⟨middle, same, nowStands, visited⟩
  exact canRead_of_visit (by decide) visited
    (unlabelled_same unlabelled same (SameNotes.refl middle)) nowStands

theorem canRead_indent (stands : before.Stands number last) (positive : 1 ≤ line)
    (unlabelled : before.labelAt? path = none) :
    CanRead settings before path (.leaf Kind.indent text line) fun after =>
      after.Stands line (AtTurn number last line) := by
  rcases stands.visit settings path Kind.indent text positive (by decide) (by decide) with
    ⟨middle, same, nowStands, visited⟩
  have indented : SameNotes middle { middle with indentation := middle.indentation + 1 } :=
    ⟨rfl, rfl, rfl, rfl, rfl⟩
  exact canRead_of_visit (by decide) visited (unlabelled_same unlabelled same indented) nowStands

theorem canRead_endMarker (stands : before.Stands number last) (positive : 1 ≤ line)
    (unlabelled : before.labelAt? path = none) :
    CanRead settings before path (.leaf Kind.endMarker text line) fun after =>
      after.line = none := by
  rcases stands.visit settings path Kind.endMarker text positive (by decide) (by decide) with
    ⟨middle, same, _, visited⟩
  have ended : middle.commit .null = ⟨{ middle.flush with line := none }, none⟩ := rfl
  have late := middle.commit_sameNotes .null
  rw [ended] at late
  refine canRead_of_visit (by decide) (visited.trans ?_) (unlabelled_same unlabelled same late) rfl
  have plan : Plan.token settings before path (.int Kind.endMarker) (.text text) = [.finish] := by
    simp [Plan.token, Element.isNumber, Kind.endMarker, Kind.newline, Kind.indent, Kind.string,
      Kind.name, Kind.dot]
  simp [plan, takeAll, ended]

/-- A marked name or dot is written as a symbol and uses its mark up. -/
theorem canRead_marked {mark : Mark} (stands : before.Stands number last) (positive : 1 ≤ line)
    (canHold : kind = Kind.name ∨ kind = Kind.dot) (held : before.labelAt? path = some (.known mark))
    (noEnd : mark ≠ .functionEnd) (present : text ≠ "")
    (takes : ∀ item, AtTurn number last line item → Line.Takes (some mark) item) :
    CanRead settings before path (.leaf kind text line) fun after =>
      after.Stands line fun item => ∃ whole, item = some (.symbol (some mark) whole) := by
  have isTerminal : kind < Kind.firstConstruct := by
    rcases canHold with rfl | rfl <;> decide
  have plan : Plan.token settings before path (.int kind) (.text text) =
      [.unmark path, .add (.symbol (some mark) text)] := by
    have made : Item.makeSymbol (.text text) (.known mark) = .ok (.symbol (some mark) text) := by
      simp [makeSymbol_known noEnd, present]
    rcases canHold with rfl | rfl <;>
      simp [Plan.token, Element.isNumber, Kind.newline, Kind.indent, Kind.string, Kind.name, Kind.dot,
        Plan.name, held, Plan.markedSymbol, made, Plan.addMade]
  rcases stands.visit settings path kind text positive (by rcases canHold with rfl | rfl <;> decide)
    (by rcases canHold with rfl | rfl <;> decide) with ⟨middle, same, nowStands, visited⟩
  have dropped : (middle.dropMark path).Stands line (AtTurn number last line) := nowStands
  rcases dropped.addSymbol takes (by simpa using noEnd) text with ⟨after, added, late, written⟩
  refine canRead_of_visit isTerminal (visited.trans ?_) ((same.dropMark path).trans late) written
  simp [plan, takeAll, added]

/-- A name that is no keyword is written as a symbol without a mark. -/
theorem canRead_freeName (stands : before.Stands number last) (positive : 1 ≤ line)
    (unlabelled : before.labelAt? path = none) (present : text ≠ "")
    (free : settings.grammar.isKeyword (.text text) = false)
    (takes : ∀ item, AtTurn number last line item → Line.Takes none item) :
    CanRead settings before path (.leaf Kind.name text line) fun after =>
      after.Stands line fun item => ∃ whole, item = some (.symbol none whole) := by
  rcases stands.visit settings path Kind.name text positive (by decide) (by decide) with
    ⟨middle, same, nowStands, visited⟩
  rcases nowStands.addSymbol takes (by simp) text with ⟨after, added, late, written⟩
  refine canRead_of_visit (by decide) (visited.trans ?_) (unlabelled_same unlabelled same late)
    written
  have plan : Plan.token settings before path (.int Kind.name) (.text text) =
      [.add (.symbol none text)] := by
    simp [Plan.token, Element.isNumber, Kind.newline, Kind.indent, Kind.string, Kind.name, Plan.name,
      unlabelled, free, Item.makeSymbol, Label.absent, Label.toMark, Element.isPresent, Plan.addMade,
      present]
  simp [plan, takeAll, added]

/-- A terminal that adds its text as it is. -/
theorem canRead_plain (stands : before.Stands number last) (positive : 1 ≤ line)
    (isTerminal : kind < Kind.firstConstruct) (notDedent : kind ≠ Kind.dedent)
    (notString : kind ≠ Kind.string) (unlabelled : before.labelAt? path = none)
    (plan : Plan.token settings before path (.int kind) (.text text) = [.add (.plain text)]) :
    CanRead settings before path (.leaf kind text line) fun after =>
      after.Stands line fun item => ∃ whole, item = some (.plain whole) := by
  rcases stands.visit settings path kind text positive notDedent notString with
    ⟨middle, same, nowStands, visited⟩
  rcases nowStands.addPlain text with ⟨after, added, late, written⟩
  refine canRead_of_visit isTerminal (visited.trans ?_) (unlabelled_same unlabelled same late) written
  simp [plan, takeAll, added]

theorem token_keyword (unlabelled : before.labelAt? path = none) (present : text ≠ "")
    (reserved : settings.grammar.isKeyword (.text text) = true) :
    Plan.token settings before path (.int Kind.name) (.text text) = [.add (.plain text)] := by
  simp [Plan.token, Element.isNumber, Kind.newline, Kind.indent, Kind.string, Kind.name, Plan.name,
    unlabelled, reserved, Item.makePlain, Plan.addMade, present]

theorem token_other (unlabelled : before.labelAt? path = none) (present : text ≠ "")
    (notNewline : kind ≠ Kind.newline) (notIndent : kind ≠ Kind.indent)
    (notString : kind ≠ Kind.string) (notName : kind ≠ Kind.name)
    (notEnd : kind ≠ Kind.endMarker) :
    Plan.token settings before path (.int kind) (.text text) = [.add (.plain text)] := by
  simp [Plan.token, Element.isNumber, notNewline, notIndent, notString, notName, notEnd, unlabelled,
    Item.makePlain, Plan.addMade, present]

theorem escapeNewlines_ne_empty {text : String} (present : text ≠ "") :
    Text.escapeNewlines text ≠ "" := by
  intro empty
  apply present
  have noChars :
      text.toList.flatMap (fun char => if char = '\n' then ['\\', 'n'] else [char]) = [] := by
    simpa [Text.escapeNewlines] using congrArg String.toList empty
  cases chars : text.toList with
  | nil => exact String.toList_eq_nil_iff.mp chars
  | cons char rest =>
      rw [chars] at noChars
      by_cases isNewline : char = '\n' <;> simp [isNewline] at noChars

/-- A string is written on the line at hand: as plain text, or as a symbol between its quotes. -/
theorem canRead_string (stands : before.Stands number last) (unlabelled : before.labelAt? path = none)
    (present : text ≠ "") :
    CanRead settings before path (.leaf Kind.string text line) fun after =>
      after.Stands number fun item => ∃ whole, item = some (.plain whole) := by
  rcases stands with ⟨current, opened, isNumber, isLast⟩
  have nowStands : before.Stands number last := ⟨current, opened, isNumber, isLast⟩
  have visited : before.visitTerminal settings path (Tree.leaf Kind.string text line).toElement line =
      before.takeAll settings.grammar (Plan.string settings (.text text)) := by
    have entry : (Tree.leaf Kind.string text line).toElement.entry 1 = .ok (.text text) := rfl
    unfold visitTerminal Plan.terminal
    simp only [Tree.kind_toElement, Tree.kind, entry, opened]
    simp [Element.isNumber, Kind.dedent, Kind.string, Plan.token, Kind.newline, Kind.indent]
  have plainly (plan : Plan.string settings (.text text) = Plan.plainString (.text text)) :
      CanRead settings before path (.leaf Kind.string text line) fun after =>
        after.Stands number fun item => ∃ whole, item = some (.plain whole) := by
    rcases nowStands.addPlain (Text.escapeNewlines text) with ⟨after, added, same, written⟩
    refine canRead_of_visit (by decide) (visited.trans ?_)
      (unlabelled_same unlabelled (SameNotes.refl before) same) written
    simp [plan, Plan.plainString, Item.makePlain, escapeNewlines_ne_empty present, Plan.addMade, takeAll, added]
  cases wanted : settings.stringSymbols with
  | false => exact plainly (by simp [Plan.string, wanted])
  | true =>
      cases found : quotedIdentifier? text with
      | none => exact plainly (by simp [Plan.string, wanted, found])
      | some parts =>
          rcases parts with ⟨opening, name, closing⟩
          rcases nowStands.addPlain opening with ⟨first, addedOpening, sameFirst, behindOpening⟩
          have takes : ∀ item, (∃ whole, item = some (.plain whole)) → Line.Takes none item := by
            rintro item ⟨whole, rfl⟩ held symbol isLast
            cases isLast
          rcases behindOpening.addSymbol takes (by simp) name with
            ⟨second, addedName, sameSecond, behindName⟩
          rcases behindName.addPlain closing with ⟨after, addedClosing, sameAfter, written⟩
          refine canRead_of_visit (by decide) (visited.trans ?_)
            (unlabelled_same unlabelled sameFirst (sameSecond.trans sameAfter)) written
          simp [Plan.string, wanted, found, takeAll, addedOpening, addedName, addedClosing]

/-- The line at hand is where a cursor says that reading has come to. -/
def LineFits (state : State) : Tree.Cursor → Prop
  | .on number behindSymbol =>
    state.Stands number fun item => behindSymbol = false → Line.TakesAny item
  | .ended => state.line = none

theorem Stands.fits_behind (stands : state.Stands number last) :
    state.LineFits (.on number true) := by
  unfold LineFits
  exact stands.imp (by simp)

theorem Stands.fits_plain (stands : state.Stands number fun item => ∃ whole, item = some (.plain whole))
    (behindSymbol : Bool) : state.LineFits (.on number behindSymbol) := by
  unfold LineFits
  refine stands.imp ?_
  rintro item ⟨whole, rfl⟩ _ held name isLast
  cases isLast

theorem atTurn_takesAny {behindSymbol : Bool} {item : Option Item}
    (atTurn : AtTurn number (fun item => behindSymbol = false → Line.TakesAny item) line item)
    (free : (behindSymbol && decide (number = line)) = false) : Line.TakesAny item := by
  rcases atTurn with isNew | ⟨sameLine, takesAny⟩
  · simp [isNew, Line.TakesAny]
  · exact takesAny (by simpa [sameLine] using free)

/-- A cursor reads a keyword as plain text, and any other name only where a symbol can stand. -/
theorem step_name {role : Tree.Role} {behindSymbol : Bool} {next : Tree.Cursor}
    (notPart : role ≠ .part)
    (stepped : (Tree.Cursor.on number behindSymbol).step ⟨role, Kind.name, text, line⟩ = some next) :
    role = .word ∧ Grammar.version3.isKeyword (.text text) = true ∧ next = .on line false ∨
      (behindSymbol && decide (number = line)) = false ∧ next = .on line true := by
  have notDedent : ¬ (Kind.name : Int) = Kind.dedent := by decide
  have notString : ¬ (Kind.name : Int) = Kind.string := by decide
  have notEnd : ¬ (Kind.name : Int) = Kind.endMarker := by decide
  have notSilent : ¬ (decide ((Kind.name : Int) = Kind.newline) ||
      decide ((Kind.name : Int) = Kind.indent)) = true := by decide
  simp only [Tree.Cursor.step, if_neg notDedent, if_neg notString, if_neg notEnd,
    if_neg notSilent] at stepped
  split at stepped
  next maybe =>
    split at stepped
    next => cases stepped
    next notBlocked =>
      cases stepped
      right
      simpa [notPart] using notBlocked
  next never =>
    cases stepped
    left
    have keyword : role = .word ∧ Grammar.version3.isKeyword (.text text) = true := by
      simpa [Tree.Terminal.mayBeSymbol, Kind.name, Kind.dot, Tree.grammar] using never
    exact ⟨keyword.1, keyword.2, rfl⟩

/-- A name where any symbol can stand is read, whatever its mark. -/
theorem canRead_anyName (stands : before.Stands number last) (positive : 1 ≤ line) (present : text ≠ "")
    (notes : before.OnlyNotes)
    (takesAny : ∀ item, AtTurn number last line item → Line.TakesAny item) :
    CanRead settings before path (.leaf Kind.name text line) fun after =>
      after.Stands line fun _ => True := by
  cases held : before.labelAt? path with
  | some label =>
      rcases notes.labelAt held with ⟨mark, noEnd, rfl⟩
      exact (canRead_marked stands positive (Or.inl rfl) held noEnd present
        fun item atTurn => (takesAny item atTurn).takes _).imp
        fun after nowStands => nowStands.imp fun _ _ => trivial
  | none =>
      cases reserved : settings.grammar.isKeyword (.text text) with
      | true =>
          exact (canRead_plain stands positive (by decide) (by decide) (by decide) held
            (token_keyword held present reserved)).imp
            fun after nowStands => nowStands.imp fun _ _ => trivial
      | false =>
          exact (canRead_freeName stands positive held present reserved
            fun item atTurn => (takesAny item atTurn).takes _).imp
            fun after nowStands => nowStands.imp fun _ _ => trivial

/-- A name that a cursor can read, and that is not a later part of a dotted name, comes off. -/
theorem canRead_name {role : Tree.Role} {behindSymbol : Bool} {next : Tree.Cursor}
    (latest : settings.grammar = .version3) (positive : 1 ≤ line) (present : text ≠ "")
    (notPart : role ≠ .part) (notes : before.OnlyNotes)
    (stands : before.Stands number fun item => behindSymbol = false → Line.TakesAny item)
    (stepped : (Tree.Cursor.on number behindSymbol).step ⟨role, Kind.name, text, line⟩ = some next)
    (holds : before.labelAt? path ≠ none → role ≠ .word) :
    CanRead settings before path (.leaf Kind.name text line) (·.LineFits next) := by
  rcases step_name notPart stepped with ⟨isWord, isKeyword, rfl⟩ | ⟨free, rfl⟩
  · have unlabelled : before.labelAt? path = none := by
      apply Classical.byContradiction
      intro labelled
      exact holds labelled isWord
    rw [← latest] at isKeyword
    exact (canRead_plain stands positive (by decide) (by decide) (by decide) unlabelled
      (token_keyword unlabelled present isKeyword)).imp
      fun after nowStands => nowStands.fits_plain _
  · exact (canRead_anyName stands positive present notes
      fun item atTurn => atTurn_takesAny atTurn free).imp
      fun after nowStands => nowStands.fits_behind

/-- A terminal that a cursor can read, and that is not a later part of a dotted name, comes off. -/
theorem canRead_leaf {role : Tree.Role} {cursor next : Tree.Cursor}
    (latest : settings.grammar = .version3)
    (sound : (Tree.leaf kind text line).sound = true) (notPart : role ≠ .part)
    (notes : before.OnlyNotes) (fits : before.LineFits cursor)
    (stepped : cursor.step ⟨role, kind, text, line⟩ = some next)
    (holds : before.labelAt? path ≠ none → role ≠ .word ∧ kind = Kind.name) :
    CanRead settings before path (.leaf kind text line) (·.LineFits next) := by
  simp only [Tree.sound, Bool.and_eq_true, decide_eq_true_eq, Bool.or_eq_true, List.any_cons,
    List.any_nil, Bool.or_false] at sound
  rcases sound with ⟨⟨isTerminal, positive⟩, present⟩
  cases cursor with
  | ended => cases stepped
  | on number behindSymbol =>
      have stands : before.Stands number fun item => behindSymbol = false → Line.TakesAny item := fits
      by_cases isName : kind = Kind.name
      · subst isName
        have notEmpty : text ≠ "" := by
          simpa [Kind.name, Kind.newline, Kind.indent, Kind.dedent, Kind.endMarker] using present
        exact canRead_name latest positive notEmpty notPart notes stands stepped fun held =>
          (holds held).1
      have unlabelled : before.labelAt? path = none := by
        cases held : before.labelAt? path with
        | none => rfl
        | some label => exact absurd (holds (by simp [held])).2 isName
      simp only [Tree.Cursor.step] at stepped
      split at stepped
      next isDedent =>
        cases stepped
        subst isDedent
        exact (canRead_dedent stands unlabelled).imp fun after nowStands => nowStands.fits_behind
      next notDedent =>
      split at stepped
      next isString =>
        cases stepped
        subst isString
        have notEmpty : text ≠ "" := by
          simpa [Kind.string, Kind.newline, Kind.indent, Kind.dedent, Kind.endMarker] using present
        exact (canRead_string stands unlabelled notEmpty).imp fun after nowStands =>
          nowStands.fits_plain false
      next notString =>
      split at stepped
      next isEnd =>
        cases stepped
        subst isEnd
        exact canRead_endMarker stands positive unlabelled
      next notEnd =>
      split at stepped
      next isSilent =>
        cases stepped
        have turned (after : State) (nowStands : after.Stands line
            (AtTurn number (fun item => behindSymbol = false → Line.TakesAny item) line)) :
            after.LineFits (.on line (behindSymbol && decide (number = line))) :=
          nowStands.imp fun item atTurn free => atTurn_takesAny atTurn free
        simp only [Bool.or_eq_true, decide_eq_true_eq] at isSilent
        rcases isSilent with rfl | rfl
        · exact (canRead_newline stands positive unlabelled).imp turned
        · exact (canRead_indent stands positive unlabelled).imp turned
      next notSilent =>
      simp only [Bool.or_eq_true, decide_eq_true_eq, not_or] at notSilent
      have notSymbol : (⟨role, kind, text, line⟩ : Tree.Terminal).mayBeSymbol = false := by
        simp [Tree.Terminal.mayBeSymbol, isName, notPart]
      rw [notSymbol] at stepped
      cases stepped
      have notEmpty : text ≠ "" := by
        rcases present with isText | isNewline | isIndent | isDedent | isEnd
        · exact isText
        · exact absurd isNewline notSilent.1
        · exact absurd isIndent notSilent.2
        · exact absurd isDedent notDedent
        · exact absurd isEnd notEnd
      exact (canRead_plain stands positive isTerminal notDedent notString unlabelled
        (token_other unlabelled notEmpty notSilent.1 notSilent.2 notString isName notEnd)).imp
        fun after nowStands => nowStands.fits_plain false

end State

end CrossRef
