import CrossRef.Proofs.LineForm
import CrossRef.Proofs.Terminals

/-!
# Legible lines

What an index says of a line can be read back if the line's items alternate, no text in it breaks a
row, plain text is never empty, and a symbol without a mark does not look like one with a mark.  A
tree whose terminals are legible in this sense leads a walk to legible lines only: each addition to
a line keeps it legible, and a line is finished as it is.  The one thing besides lines that a walk
can finish is the absence of a line, when a source ends after a line was given up; nothing comes
after it.
-/

namespace CrossRef

namespace Item

/-- An item that can be read back from its row. -/
def Legible : Item → Prop
  | .symbol mark name =>
    '\n' ∉ name.toList ∧ (mark = none → ∃ first rest, name.toList = first :: rest ∧ first ≠ '\t')
  | .plain text => text ≠ "" ∧ '\n' ∉ text.toList

theorem merge_legible {first second merged : Item} (firstLegible : first.Legible)
    (secondLegible : second.Legible) (joined : first.merge second = .ok merged) :
    merged.Legible := by
  cases merge_merges joined with
  | symbols mark name more =>
      refine ⟨?_, ?_⟩
      · simpa using ⟨firstLegible.1, secondLegible.1⟩
      · intro unmarked
        rcases firstLegible.2 unmarked with ⟨char, rest, letters, noTab⟩
        exact ⟨char, rest ++ more.toList, by simp [letters], noTab⟩
  | texts text more =>
      refine ⟨?_, ?_⟩
      · intro empty
        have letters := congrArg String.toList empty
        simp at letters
      · simpa using ⟨firstLegible.2, secondLegible.2⟩

end Item

namespace Line

/-- A line that can be read back from its rows. -/
structure Legible (line : Line) : Prop where
  honest : line.Honest
  alternate : Item.Alternate line.items
  items : ∀ item ∈ line.items, item.Legible

theorem start_legible {number : Element} {line : Line} (started : start number = .ok line) :
    line.Legible := by
  cases number with
  | int number =>
      simp only [start] at started
      split at started
      · cases started
        exact ⟨rfl, List.isChain_nil, by simp⟩
      · cases started
  | null | bool value | float value | text value | node elements | list elements => cases started

theorem separator_legible : separator.Legible := by
  refine ⟨by decide, by decide⟩

theorem Adds.legible {line longer : Line} {item : Item} (adds : line.Adds item longer)
    (lineLegible : line.Legible) (itemLegible : item.Legible) : longer.Legible := by
  refine ⟨adds.honest lineLegible.honest, adds.alternate lineLegible.alternate, ?_⟩
  have old := lineLegible.items
  cases adds with
  | pushed differs =>
      intro other member
      rcases List.mem_append.mp member with inLine | isNew
      · exact old other inLine
      · rw [List.mem_singleton.mp isNew]
        exact itemLegible
  | separated follows isSymbol ends =>
      intro other member
      simp only [push, List.append_assoc, List.mem_append, List.mem_singleton] at member
      rcases member with inLine | rfl | rfl
      · exact old other inLine
      · exact separator_legible
      · exact itemLegible
  | merged split noEnd sameSort merges =>
      rw [split] at old
      intro other member
      rcases List.mem_append.mp member with inFront | isMerged
      · exact old other (List.mem_append_left _ inFront)
      · rw [List.mem_singleton.mp isMerged]
        exact Item.merge_legible (old _ (List.mem_append_right _ (List.mem_singleton_self _)))
          itemLegible merges

end Line

namespace Element

/-- Terminals whose texts may break a row: the index holds no such text as it stands. -/
def mayBreakRow (node : Element) : Bool :=
  [Kind.string, Kind.newline, Kind.indent, Kind.dedent, Kind.endMarker].any node.isOfKind

/-- A terminal whose text an index can hold. -/
structure LegibleTerminal (node : Element) : Prop where
  oneRow : '\n' ∈ node.wording.toList → node.mayBreakRow = true
  noTab : node.isOfKind Kind.name = true → node.wording.toList.head? ≠ some '\t'

instance (node : Element) : Decidable node.LegibleTerminal :=
  decidable_of_iff
    (('\n' ∈ node.wording.toList → node.mayBreakRow = true) ∧
      (node.isOfKind Kind.name = true → node.wording.toList.head? ≠ some '\t'))
    ⟨fun both => ⟨both.1, both.2⟩, fun legible => ⟨legible.oneRow, legible.noTab⟩⟩

/-- A name and a dot never break a row. -/
theorem LegibleTerminal.oneRow_of_canHold {node : Element} (terminal : node.LegibleTerminal)
    (canHold : node.isOfKind Kind.name = true ∨ node.isOfKind Kind.dot = true) :
    '\n' ∉ node.wording.toList := by
  intro broken
  have breaks := terminal.oneRow broken
  have other := not_isOfKind_of_canHold canHold
  simp [mayBreakRow, other Kind.string (by decide) (by decide),
    other Kind.newline (by decide) (by decide), other Kind.indent (by decide) (by decide),
    other Kind.dedent (by decide) (by decide), other Kind.endMarker (by decide) (by decide)] at breaks

/-- A name is legible as a symbol without a mark. -/
theorem LegibleTerminal.symbol_legible {node : Element} (terminal : node.LegibleTerminal)
    (isName : node.isOfKind Kind.name = true) (present : node.wording ≠ "") :
    (Item.symbol none node.wording).Legible := by
  refine ⟨terminal.oneRow_of_canHold (Or.inl isName), ?_⟩
  intro _
  cases letters : node.wording.toList with
  | nil => exact absurd (String.toList_eq_nil_iff.mp letters) present
  | cons first rest =>
      refine ⟨first, rest, rfl, ?_⟩
      rintro rfl
      apply terminal.noTab isName
      rw [letters]
      rfl

end Element

theorem quotes_legible {text : String} (isQuote : quotes.contains text = true) :
    (Item.plain text).Legible := by
  have each : ∀ quote ∈ quotes, quote ≠ "" ∧ '\n' ∉ quote.toList := by decide
  exact each text (by simpa using isQuote)

/-- The parts of a string that holds an identifier. -/
theorem quotedIdentifier?_legible {text opening name closing : String}
    (found : quotedIdentifier? text = some (opening, name, closing)) :
    (Item.plain opening).Legible ∧ (Item.symbol none name).Legible ∧
      (Item.plain closing).Legible := by
  unfold quotedIdentifier? at found
  simp only at found
  rcases Option.ite_none_right_eq_some.mp found with ⟨isIdentifier, parts⟩
  simp only [Bool.and_eq_true] at isIdentifier
  rcases isIdentifier with ⟨⟨opens, starts⟩, closes⟩
  cases parts
  refine ⟨quotes_legible opens, ⟨?_, ?_⟩, quotes_legible closes⟩
  · intro broken
    rw [String.toList_ofList] at broken
    have continues := List.all_eq_true.mp List.all_takeWhile _ broken
    revert continues
    decide
  · intro _
    rw [String.toList_ofList]
    generalize List.takeWhile continuesIdentifier _ = letters at starts
    cases letters with
    | nil => cases starts
    | cons first rest =>
        refine ⟨first, rest, rfl, ?_⟩
        rintro rfl
        revert starts
        simp only [List.head?_cons, Option.any_some]
        decide

namespace State

variable {settings : Settings} {before after : State} {path : Path} {node : Element} {number : Int}

theorem escapeNewlines_oneRow (text : String) : '\n' ∉ (Text.escapeNewlines text).toList := by
  simp only [Text.escapeNewlines, String.toList_ofList, List.mem_flatMap, not_exists, not_and]
  intro char _
  split
  · decide
  next notFeed =>
    intro member
    exact notFeed (List.mem_singleton.mp member).symm

theorem Writes.legible {items : List Item} (writes : Writes settings before path node items)
    (notDedent : node.isOfKind Kind.dedent = false) (terminal : node.LegibleTerminal) :
    ∀ item ∈ items, item.Legible := by
  cases writes with
  | quoted isString wanted found =>
      rcases quotedIdentifier?_legible found with ⟨opening, name, closing⟩
      simp [opening, name, closing]
  | string isString unwanted present =>
      simpa [Item.Legible, escapeNewlines_oneRow] using present
  | keyword isName unmarked reserved present =>
      simpa [Item.Legible] using ⟨present, terminal.oneRow_of_canHold (Or.inl isName)⟩
  | name isName unmarked free present =>
      simpa using terminal.symbol_legible isName present
  | other notNewline notIndent notString notName unmarked notEnd present =>
      have oneRow : '\n' ∉ node.wording.toList := by
        intro broken
        have breaks := terminal.oneRow broken
        simp [Element.mayBreakRow, notNewline, notIndent, notString, notEnd, notDedent] at breaks
      simpa [Item.Legible] using ⟨present, oneRow⟩

/-- Finished lines that can be read back. -/
def LegibleLines (blocks : List (Option Line)) : Prop :=
  ∀ block ∈ blocks, ∃ line, block = some line ∧ line.hasSymbol = true ∧ line.Legible

/-- Everything written so far is legible. -/
structure Unbroken (state : State) : Prop where
  blocks : LegibleLines state.blocks
  line : ∀ line, state.line = some line → line.Legible

/-- The source has ended where no line was open. -/
structure Broken (state : State) : Prop where
  blocks : ∃ front, state.blocks = front ++ [none] ∧ LegibleLines front
  line : state.line = none

/-- A state whose lines can be read back. -/
def Legible (state : State) : Prop :=
  state.Unbroken ∨ state.Broken

theorem unbroken_of_opened {line : Line} (legible : before.Legible) (opened : before.line = some line) :
    before.Unbroken := by
  rcases legible with unbroken | broken
  · exact unbroken
  · rw [broken.line] at opened
    cases opened

theorem Unbroken.of_page (unbroken : before.Unbroken) (blocks : after.blocks = before.blocks)
    (line : after.line = before.line) : after.Unbroken :=
  ⟨blocks ▸ unbroken.blocks, line ▸ unbroken.line⟩

theorem Legible.of_page (legible : before.Legible) (blocks : after.blocks = before.blocks)
    (line : after.line = before.line) : after.Legible := by
  rcases legible with unbroken | broken
  · exact Or.inl (unbroken.of_page blocks line)
  · exact Or.inr ⟨blocks ▸ broken.blocks, line.trans broken.line⟩

theorem Unbroken.flush {line : Line} (unbroken : before.Unbroken) (opened : before.line = some line) :
    LegibleLines before.flush.blocks := by
  unfold State.flush
  simp only [opened]
  split
  next hasSymbol =>
    intro block member
    rcases List.mem_append.mp member with former | isLine
    · exact unbroken.blocks block former
    · exact ⟨line, List.mem_singleton.mp isLine, hasSymbol, unbroken.line line opened⟩
  · exact unbroken.blocks

theorem Unbroken.commit {line : Line} {next : Element} (unbroken : before.Unbroken)
    (opened : before.line = some line) (committed : before.commit next = ⟨after, none⟩) :
    after.Unbroken := by
  have flushed := unbroken.flush opened
  rcases commit_cases committed with ⟨fresh, started, rfl⟩ | rfl
  · refine ⟨flushed, ?_⟩
    rintro other isLine
    cases isLine
    exact Line.start_legible started
  · refine ⟨flushed, ?_⟩
    rintro other isLine
    cases isLine

theorem Unbroken.turnTo {line : Line} (unbroken : before.Unbroken) (opened : before.line = some line)
    (turned : before.turnTo line number node = ⟨after, none⟩) : after.Unbroken := by
  rcases turnTo_cases turned with ⟨_, _, committed⟩ | ⟨_, rfl⟩
  · exact unbroken.commit opened committed
  · exact unbroken

/-- The end of the source finishes the line at hand, or its absence. -/
theorem Unbroken.finish (unbroken : before.Unbroken) (ended : before.commit .null = ⟨after, none⟩) :
    after.Legible := by
  cases opened : before.line with
  | some line => exact Or.inl (unbroken.commit opened ended)
  | none =>
      simp only [State.commit, State.flush, opened, Element.isPresent] at ended
      cases ended
      exact Or.inr ⟨⟨before.blocks, rfl, unbroken.blocks⟩, rfl⟩

theorem Unbroken.addItem {item : Item} (unbroken : before.Unbroken) (itemLegible : item.Legible)
    (added : before.addItem item = ⟨after, none⟩) : after.Unbroken := by
  rcases addItem_cases added with ⟨line, longer, opened, lengthened, rfl⟩
  refine ⟨unbroken.blocks, ?_⟩
  rintro other isLine
  cases isLine
  exact (Line.add_adds lengthened).legible (unbroken.line line opened) itemLegible

theorem Unbroken.addItems {grammar : Grammar} {items : List Item} (unbroken : before.Unbroken)
    (itemsLegible : ∀ item ∈ items, item.Legible)
    (added : before.takeAll grammar (items.map .add) = ⟨after, none⟩) : after.Unbroken := by
  induction items generalizing before with
  | nil =>
      cases added
      exact unbroken
  | cons item rest ih =>
      rcases takeAll_add_cons added with ⟨middle, taken, others⟩
      have goesOn := unbroken.addItem (itemsLegible item List.mem_cons_self) taken
      exact ih goesOn (fun other member => itemsLegible other (List.mem_cons_of_mem _ member)) others

theorem Legible.dedent (legible : before.Legible) (went : before.dedent = ⟨after, none⟩) :
    after.Legible := by
  rcases dedent_cases went with ⟨_, added⟩ | ⟨_, rfl⟩
  · have page : Legible { before with indentation := before.indentation - 1, functionLevel := -1 } :=
      legible.of_page rfl rfl
    rcases page with unbroken | broken
    · have endLegible : (Item.symbol (some .functionEnd) "").Legible :=
        ⟨by decide, nofun⟩
      exact Or.inl (unbroken.addItem endLegible added)
    · have closed : before.line = none := broken.line
      simp only [State.addItem, closed] at added
      cases added
  · exact legible.of_page rfl rfl

/-- A legible terminal leaves everything legible. -/
theorem Reads.legible (reads : Reads settings before path node number after)
    (legible : before.Legible) (terminal : node.LegibleTerminal) : after.Legible := by
  cases reads with
  | dedent isDedent went => exact legible.dedent went
  | newline line opened isNewline turned =>
      exact Or.inl ((unbroken_of_opened legible opened).turnTo opened turned)
  | indent line middle opened isIndent turned went =>
      have unbroken := (unbroken_of_opened legible opened).turnTo opened turned
      rw [went]
      exact Or.inl (unbroken.of_page rfl rfl)
  | finish line middle opened isEnd turned ended =>
      exact ((unbroken_of_opened legible opened).turnTo opened turned).finish ended
  | marked line middle mark opened canHold held noEnd present turned added =>
      have unbroken := (unbroken_of_opened legible opened).turnTo opened turned
      have unmarked : (middle.dropMark path).Unbroken := unbroken.of_page rfl rfl
      have symbolLegible : (Item.symbol (some mark) node.wording).Legible :=
        ⟨terminal.oneRow_of_canHold canHold, nofun⟩
      exact Or.inl (unmarked.addItem symbolLegible added)
  | written line middle items opened notDedent writes turned added =>
      have unbroken := (unbroken_of_opened legible opened).turnTo opened turned
      exact Or.inl (unbroken.addItems (writes.legible notDedent terminal) added)

theorem Passes.legible (passes : before.Passes settings path node after) (notes : before.OnlyNotes)
    (legible : before.Legible) (terminal : node.isTerminal = true → node.LegibleTerminal) :
    after.Legible := by
  cases passes with
  | construct isConstruct visited =>
      have same := before.visitConstruct_samePage settings path node
      rw [visited] at same
      exact legible.of_page same.blocks same.line
  | terminal number isTerminal numbered visited =>
      exact (visitTerminal_reads notes visited).legible legible
        (terminal (Element.isTerminal_iff.mpr isTerminal))

end State

namespace Element

/-- A tree all of whose terminals are legible. -/
def Legible (tree : Element) : Prop :=
  ∀ node ∈ tree.terminals, node.LegibleTerminal

instance (tree : Element) : Decidable tree.Legible :=
  inferInstanceAs (Decidable (∀ node ∈ tree.terminals, node.LegibleTerminal))

end Element

/-- A walk of a legible tree that comes to its end has written legible lines only. -/
theorem Walk.ofTree_legible {settings : Settings} {tree : Element} (legible : tree.Legible)
    (complete : (ofTree settings tree).fault = none) : (ofTree settings tree).state.Legible := by
  have start : ({} : State).Legible := by
    refine Or.inl ⟨by simp [State.LegibleLines], ?_⟩
    rintro line isLine
    cases isLine
    exact ⟨rfl, List.isChain_nil, by simp⟩
  have nodes := meetings_nodes complete
  have kept := (passage_ofTree complete).preserves
    (motive := fun state => state.OnlyNotes ∧ state.Legible) ?_ ⟨State.onlyNotes_empty, start⟩
  · exact kept.2
  · rintro entry member before after ⟨notes, legibleBefore⟩ passes
    refine ⟨passes.onlyNotes notes, passes.legible notes legibleBefore ?_⟩
    intro isTerminal
    apply legible
    refine List.mem_filter.mpr ⟨?_, isTerminal⟩
    rw [← nodes]
    exact List.mem_map_of_mem (List.mem_map_of_mem member)

end CrossRef
