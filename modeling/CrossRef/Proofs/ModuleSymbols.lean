import CrossRef.Proofs.ImportedModules

/-!
# Symbols for modules

The parts of a module's dotted name come to a line one by one.  A part that is marked begins a symbol
if the line does not end in one with the same mark, and makes it longer otherwise.  Hence a dotted name
on one line whose parts are all marked becomes one symbol, if it comes behind something else.
-/

namespace CrossRef

namespace Assignment

theorem Token.wording_toElement (kind : Nat) (token : Token) :
    (token.toElement kind).wording = token.text :=
  Element.wording_eq (Element.entry_of_getElem? 1 rfl)

theorem Token.lineNumber_toElement (kind : Nat) (token : Token) :
    (token.toElement kind).lineNumber = .ok token.line := by
  have found : (token.toElement kind).entry 2 = .ok (.int token.line) :=
    Element.entry_of_getElem? 2 rfl
  rw [Element.lineNumber, found]
  rfl

theorem Token.isOfKindIn_toElement (kind : Nat) (kinds : List Nat) (token : Token) :
    (token.toElement kind).isOfKindIn kinds = decide (kind ∈ kinds) := by
  simp [Element.isOfKindIn, List.any_eq]

end Assignment

namespace Line

variable {line longer : Line} {mark : Mark} {text : String}

/-- A symbol stays apart from what does not have its mark. -/
theorem Adds.apart (adds : line.Adds (.symbol (some mark) text) longer) (noEnd : mark ≠ .functionEnd)
    (other : line.items.getLast?.bind Item.mark? ≠ some mark) :
    longer.items = line.items ++ [.symbol (some mark) text] := by
  cases adds with
  | pushed differs => rfl
  | separated follows isSymbol ends =>
      simp [Item.isFunctionEnd_eq, noEnd] at ends
  | merged split _ sameSort merges =>
      rw [split] at other
      exact absurd (by simpa using (Item.merge_mark merges).1) other

/-- A symbol grows by one that has its mark. -/
theorem Adds.joined {front : List Item} {name : String}
    (adds : line.Adds (.symbol (some mark) text) longer) (noEnd : mark ≠ .functionEnd)
    (ends : line.items = front ++ [.symbol (some mark) name]) :
    longer.items = front ++ [.symbol (some mark) (name ++ text)] := by
  cases adds with
  | pushed differs => exact absurd rfl (differs (.symbol (some mark) name) (by simp [ends]))
  | separated follows isSymbol isEnd =>
      simp [Item.isFunctionEnd_eq, noEnd] at isEnd
  | merged split _ sameSort merges =>
      rw [ends] at split
      rcases List.append_inj' split rfl with ⟨rfl, isLast⟩
      cases isLast
      simp only [Item.merge, if_true, Except.ok.injEq] at merges
      rw [merges]

end Line

namespace State

open Assignment (Token)

variable {settings : Settings} {before after : State} {path : Path} {number : Int}

/-- The line at hand has the given number and ends in a symbol for a module, with nothing of another
module in it. -/
def EndsInModule (state : State) (number : Int) (text : String) : Prop :=
  ∃ line front, state.line = some line ∧ line.number = number ∧
    line.items = front ++ [.symbol (some .inclusion) text] ∧
    front.getLast?.bind Item.mark? ≠ some .inclusion

/-- A part of a module is added to the line at hand if that is its own, and to a new one otherwise. -/
theorem Passes.adds_inclusion {kind : Nat} {token : Token}
    (passes : before.Passes settings path (token.toElement kind) after) (notes : before.OnlyNotes)
    (isPart : kind ∈ [Kind.name, Kind.dot])
    (held : before.labelAt? path = some (.known .inclusion)) :
    ∃ line reached longer, before.line = some line ∧ reached.number = token.line ∧
      (reached = line ∨ line.number ≠ token.line ∧ reached.items = []) ∧
      reached.Adds (.symbol (some .inclusion) token.text) longer ∧ after.line = some longer := by
  have isKind : (token.toElement kind).isOfKind kind = true := by
    simp
  have canHold := (token.isOfKindIn_toElement kind _).trans (decide_eq_true isPart)
  have isString : (token.toElement kind).isOfKind Kind.string = false := by
    simp only [List.mem_cons, List.not_mem_nil, or_false] at isPart
    rcases isPart with rfl | rfl <;> exact Element.not_isOfKind isKind _ (by decide)
  cases passes with
  | construct isConstruct =>
      rw [Element.isConstruct_of_canHold canHold] at isConstruct
      cases isConstruct
  | terminal number _ numbered visited =>
      rw [Token.lineNumber_toElement] at numbered
      cases numbered
      rcases (visitTerminal_reads notes visited).name_or_dot canHold with
        ⟨line, middle, mark, opened, isHeld, _, turned, added⟩ | ⟨unlabelled, _⟩
      · rw [held] at isHeld
        cases isHeld
        rw [Token.wording_toElement] at added
        rcases addItem_cases added with ⟨reached, longer, isReached, lengthened, rfl⟩
        have adds := Line.add_adds lengthened
        rcases turnTo_line turned opened isReached with
          ⟨stays, rfl⟩ | ⟨leaves, _, isNumber, isEmpty⟩
        · have isNumber := stays.resolve_right (by simp [isString])
          exact ⟨reached, reached, longer, opened, isNumber.symm, Or.inl rfl, adds, rfl⟩
        · exact ⟨line, reached, longer, opened, isNumber.symm, Or.inr ⟨leaves.symm, isEmpty⟩, adds, rfl⟩
      · rw [held] at unlabelled
        cases unlabelled

/-- The first part of a module begins a symbol. -/
theorem Passes.begins_module {kind : Nat} {token : Token}
    (passes : before.Passes settings path (token.toElement kind) after) (notes : before.OnlyNotes)
    (isPart : kind ∈ [Kind.name, Kind.dot])
    (held : before.labelAt? path = some (.known .inclusion))
    (clear : before.endMark? ≠ some .inclusion) : after.EndsInModule token.line token.text := by
  rcases passes.adds_inclusion notes isPart held with
    ⟨line, reached, longer, opened, isNumber, sameOrNew, adds, isLonger⟩
  have other : reached.items.getLast?.bind Item.mark? ≠ some .inclusion := by
    rcases sameOrNew with rfl | ⟨_, isEmpty⟩
    · simpa [endMark?, opened] using clear
    · simp [isEmpty]
  exact ⟨longer, reached.items, isLonger, adds.number ▸ isNumber, adds.apart (by decide) other, other⟩

/-- Further parts on the same line make it grow. -/
theorem Passes.extends_module {kind : Nat} {token : Token} {text : String}
    (passes : before.Passes settings path (token.toElement kind) after) (notes : before.OnlyNotes)
    (isPart : kind ∈ [Kind.name, Kind.dot])
    (held : before.labelAt? path = some (.known .inclusion))
    (ends : before.EndsInModule token.line text) :
    after.EndsInModule token.line (text ++ token.text) := by
  rcases passes.adds_inclusion notes isPart held with
    ⟨line, reached, longer, opened, isNumber, sameOrNew, adds, isLonger⟩
  rcases ends with ⟨other, front, isOpen, sameNumber, isEnd, clear⟩
  rw [opened] at isOpen
  cases isOpen
  rcases sameOrNew with rfl | ⟨leaves, _⟩
  · exact ⟨longer, front, isLonger, adds.number ▸ isNumber, adds.joined (by decide) isEnd, clear⟩
  · exact absurd sameNumber leaves

/-- Parts in a row that are marked grow together to one symbol if they stand on one line. -/
theorem Passage.extends_module {base : Path} {tokens : List (Nat × Token)} {position : Nat}
    {visits : List (State × Path × Element)} {text : String}
    (passage : Passage settings before visits after)
    (isNodes : visits.map (·.2) = Element.preorderFrom base position (Import.row tokens))
    (notes : before.OnlyNotes)
    (areParts : ∀ entry ∈ tokens, entry.1 ∈ [Kind.name, Kind.dot] ∧ entry.2.line = number)
    (held : ∀ meeting ∈ visits, meeting.2.2.isOfKindIn [Kind.name, Kind.dot] = true →
      meeting.1.labelAt? meeting.2.1 = some (.known .inclusion))
    (ends : before.EndsInModule number text) :
    after.EndsInModule number (text ++ String.join (tokens.map (·.2.text))) := by
  induction tokens generalizing position before visits text with
  | nil =>
      cases List.map_eq_nil_iff.mp isNodes
      cases passage
      simpa using ends
  | cons entry tokens ih =>
      rcases entry with ⟨kind, token⟩
      rw [Import.row_cons, Token.preorderFrom] at isNodes
      rcases List.map_eq_cons_iff.mp isNodes with ⟨⟨_, _, _⟩, others, rfl, isFirst, isRest⟩
      cases isFirst
      rw [List.forall_mem_cons] at areParts held
      rcases areParts with ⟨⟨isPart, rfl⟩, areParts⟩
      cases passage with
      | cons first passage =>
          have isHeld := held.1 (by rwa [Token.isOfKindIn_toElement, decide_eq_true_eq])
          have extended := first.extends_module notes isPart isHeld ends
          have further := ih passage isRest (first.onlyNotes notes) areParts held.2 extended
          simpa [String.append_assoc] using further

/-- Constructs leave the line at hand as it is. -/
theorem Passage.line_of_constructs {start finish : State} {meetings : List (State × Path × Element)}
    (passage : Passage settings start meetings finish)
    (constructs : ∀ entry ∈ meetings.map (·.2), entry.2.isConstruct = .ok true) :
    finish.line = start.line := by
  apply passage.preserves (motive := fun state => state.line = start.line) _ rfl
  intro meeting member before after same passes
  have isConstruct := constructs _ (List.mem_map_of_mem member)
  cases passes with
  | construct _ visited =>
      have page := before.visitConstruct_samePage settings meeting.2.1 meeting.2.2
      rw [visited] at page
      exact page.line.trans same
  | terminal number isTerminal =>
      rw [isConstruct] at isTerminal
      cases isTerminal

/-- A dotted name on one line whose parts are all marked is written as one symbol. -/
theorem Passage.writes_module {base : Path} {name : Import.DottedName}
    {visits : List (State × Path × Element)} (passage : Passage settings before visits after)
    (isNodes : visits.map (·.2) = name.toElement.preorder base) (notes : before.OnlyNotes)
    (oneLine : name.OnOneLine)
    (held : ∀ meeting ∈ visits, meeting.2.2.isOfKindIn [Kind.name, Kind.dot] = true →
      meeting.1.labelAt? meeting.2.1 = some (.known .inclusion))
    (clear : before.endMark? ≠ some .inclusion) : after.EndsInModule name.first.line name.text := by
  rw [name.preorder, Import.DottedName.parts, Import.DottedName.tokens, Import.row_cons,
    Token.preorderFrom] at isNodes
  rcases List.map_eq_cons_iff.mp isNodes with ⟨⟨_, _, _⟩, parts, rfl, isName, isParts⟩
  cases isName
  rcases List.map_eq_cons_iff.mp isParts with ⟨⟨_, _, _⟩, others, rfl, isFirst, isOthers⟩
  cases isFirst
  rw [List.forall_mem_cons, List.forall_mem_cons] at held
  have areParts : ∀ entry ∈ name.tokens,
      entry.1 ∈ [Kind.name, Kind.dot] ∧ entry.2.line = name.first.line := by
    intro entry member
    exact ⟨by simpa using Import.DottedName.kind_of_mem_tokens member, oneLine entry member⟩
  rw [Import.DottedName.tokens, List.forall_mem_cons] at areParts
  cases passage with
  | @cons _ middle _ _ _ _ construct passage =>
      have sameLine : middle.line = before.line := by
        apply (Passage.cons construct (.nil middle)).line_of_constructs
        simpa using name.isConstruct
      have stillClear : middle.endMark? ≠ some .inclusion := by
        rwa [endMark?, sameLine]
      have middleNotes := construct.onlyNotes notes
      cases passage with
      | cons first rest =>
          have isHeld := held.2.1 (by rw [Token.isOfKindIn_toElement, decide_eq_true areParts.1.1])
          have begun := first.begins_module middleNotes areParts.1.1 isHeld stillClear
          have extended := rest.extends_module isOthers (first.onlyNotes middleNotes) areParts.2
            held.2.2 begun
          simpa [Import.DottedName.text, Import.DottedName.tokens] using extended

end State

end CrossRef
