import CrossRef.Proofs.LineNumbers
import CrossRef.Proofs.PendingNotes

/-!
# Strings on their lines

A string stays on the line that a walk has come to, whatever its own number is, so that a string over
several lines is shown with what stands in front of it.  That line is the one of the last terminal
before the string that took the walk to its own.  A string that fits on one line is therefore written
on its own line exactly if that terminal stands on the same line; a string that begins a statement is
written on the line of the statement before.
-/

namespace CrossRef

namespace Element

/-- Whether a node is a string that fits on one line. -/
def isOneLineString (node : Element) : Bool :=
  node.isOfKind Kind.string && !node.wording.toList.contains '\n'

theorem isOneLineString_iff {node : Element} :
    node.isOneLineString = true ↔ node.isOfKind Kind.string = true ∧ '\n' ∉ node.wording.toList := by
  simp [isOneLineString]

end Element

/-- The items that a string on one line is written as. -/
def Settings.stringItems (settings : Settings) (text : String) : List Item :=
  match settings.stringSymbols, quotedIdentifier? text with
  | true, some (opening, name, closing) => [.plain opening, .symbol none name, .plain closing]
  | _, _ => [.plain text]

theorem Text.escapeNewlines_eq_self {text : String} (oneLine : '\n' ∉ text.toList) :
    escapeNewlines text = text := by
  have kept : (text.toList.flatMap fun char => if char = '\n' then ['\\', 'n'] else [char]) =
      text.toList.flatMap fun char => [char] := by
    apply List.flatMap_congr
    intro char member
    apply if_neg
    rintro rfl
    exact oneLine member
  rw [escapeNewlines, kept, List.flatMap_singleton', String.ofList_toList]

/-- Items are added to a line under its number. -/
theorem Line.number_of_foldlM {items : List Item} {line longer : Line}
    (added : items.foldlM add line = .ok longer) : longer.number = line.number := by
  induction items generalizing line with
  | nil =>
      cases added
      rfl
  | cons item rest ih =>
      rcases foldlM_add_cons added with ⟨next, first, others⟩
      exact (ih others).trans (add_adds first).number

namespace State

variable {settings : Settings} {before middle after : State} {path : Path} {node : Element}
  {number : Int} {line longer : Line}

/-! ## The line at hand -/

theorem turnTo_number (opened : before.line = some line)
    (turned : before.turnTo line number node = ⟨middle, none⟩) (isOpen : middle.line = some longer) :
    longer.number = if node.isOfKind Kind.string then line.number else number.toNat := by
  rcases turnTo_line turned opened isOpen with ⟨stays, rfl⟩ | ⟨_, notString, isNumber, _⟩
  · split
    · rfl
    next notString =>
      have same : number = longer.number := stays.resolve_right notString
      omega
  · rw [if_neg (by simp [notString])]
    omega

theorem addItem_number {item : Item} (added : before.addItem item = ⟨after, none⟩)
    (isOpen : after.line = some longer) :
    ∃ line, before.line = some line ∧ longer.number = line.number := by
  rcases addItem_cases added with ⟨line, more, opened, lengthened, rfl⟩
  cases isOpen
  exact ⟨line, opened, (Line.add_adds lengthened).number⟩

/-- The line at hand behind a terminal is the one on which the terminal is placed. -/
theorem Reads.lineNumber (reads : Reads settings before path node number after)
    (isTerminal : node.isTerminal = true) (numbered : node.lineNumber = .ok number)
    (isOpen : after.line = some longer) :
    ∃ line, before.line = some line ∧ longer.number = node.placeBehind line.number := by
  have goes {line reached : Line} {middle : State} (opened : before.line = some line)
      (notDedent : node.isOfKind Kind.dedent = false)
      (turned : before.turnTo line number node = ⟨middle, none⟩)
      (isReached : middle.line = some reached) :
      reached.number = node.placeBehind line.number := by
    rw [turnTo_number opened turned isReached, Element.placeBehind, Element.line_eq numbered]
    cases isString : node.isOfKind Kind.string with
    | true => simp [Element.settles, isString]
    | false => simp [Element.settles, isString, isTerminal, notDedent]
  cases reads with
  | dedent isDedent went =>
      have stays (here : Nat) : node.placeBehind here = here := by
        simp [Element.placeBehind, Element.settles, isDedent]
      rcases dedent_cases went with ⟨_, added⟩ | ⟨_, rfl⟩
      · rcases addItem_number added isOpen with ⟨line, opened, same⟩
        exact ⟨line, opened, by rw [stays, same]⟩
      · exact ⟨longer, isOpen, (stays longer.number).symm⟩
  | newline line opened isNewline turned =>
      exact ⟨line, opened, goes opened (Element.not_isOfKind isNewline _ (by decide)) turned isOpen⟩
  | indent line middle opened isIndent turned went =>
      cases went
      exact ⟨line, opened, goes opened (Element.not_isOfKind isIndent _ (by decide)) turned isOpen⟩
  | finish line middle opened isEnd turned ended =>
      rcases commit_cases ended with ⟨next, started, _⟩ | rfl
      · cases started
      · cases isOpen
  | marked line middle mark opened canHold held noEnd present turned added =>
      rcases addItem_number added isOpen with ⟨reached, isReached, same⟩
      have notDedent := Element.not_isOfKind_of_canHold canHold Kind.dedent (by decide) (by decide)
      exact ⟨line, opened, same.trans (goes opened notDedent turned isReached)⟩
  | written line middle items opened notDedent writes turned added =>
      cases isReached : middle.line with
      | none =>
          cases items with
          | nil => cases writes
          | cons item rest =>
              rcases takeAll_add_cons added with ⟨_, first, _⟩
              rcases addItem_cases first with ⟨_, _, opened, _⟩
              rw [isReached] at opened
              cases opened
      | some reached =>
          rcases takeAll_add_line isReached added with ⟨last, adds, _, isLast⟩
          rw [isOpen] at isLast
          cases isLast
          exact ⟨line, opened,
            (Line.number_of_foldlM adds).trans (goes opened notDedent turned isReached)⟩

theorem Passes.lineNumber (passes : before.Passes settings path node after) (notes : before.OnlyNotes)
    (isOpen : after.line = some longer) :
    ∃ line, before.line = some line ∧ longer.number = node.placeBehind line.number := by
  cases passes with
  | construct isConstruct visited =>
      have same := before.visitConstruct_samePage settings path node
      rw [visited] at same
      refine ⟨longer, same.line ▸ isOpen, ?_⟩
      simp [Element.placeBehind, Element.settles, Element.isTerminal, isConstruct]
  | terminal number isTerminal numbered visited =>
      exact (visitTerminal_reads notes visited).lineNumber (Element.isTerminal_iff.mpr isTerminal)
        numbered isOpen

/-- The line at hand behind a chain of visits is that of the last node that took the walk to its
own. -/
theorem Passage.lineNumber {start finish : State} {meetings : List (State × Path × Element)}
    (passage : Passage settings start meetings finish) (notes : start.OnlyNotes)
    (isOpen : finish.line = some longer) :
    ∃ line, start.line = some line ∧
      longer.number = Element.lineBehind line.number (meetings.map (·.2.2)) := by
  induction passage with
  | nil state => exact ⟨longer, isOpen, rfl⟩
  | @cons before middle after path node rest first others ih =>
      rcases ih (first.onlyNotes notes) isOpen with ⟨reached, isReached, behind⟩
      rcases first.lineNumber notes isReached with ⟨line, opened, placed⟩
      refine ⟨line, opened, ?_⟩
      rw [behind, placed, List.map_cons, Element.lineBehind_cons]

/-! ## Strings -/

/-- The visit of a node adds the given items to the line with the given number. -/
def AddsTo (settings : Settings) (state : State) (path : Path) (node : Element) (items : List Item)
    (number : Nat) : Prop :=
  ∃ line longer after, state.line = some line ∧ line.number = number ∧
    items.foldlM Line.add line = .ok longer ∧ state.Passes settings path node after ∧
    after.line = some longer

theorem AddsTo.number_unique {items : List Item} {left right : Nat}
    (first : before.AddsTo settings path node items left)
    (second : before.AddsTo settings path node items right) : left = right := by
  rcases first with ⟨line, _, _, opened, rfl, _⟩
  rcases second with ⟨other, _, _, isOther, rfl, _⟩
  rw [opened] at isOther
  cases isOther
  rfl

theorem items_of_isOneLineString (isString : node.isOneLineString = true) :
    before.items settings path node = settings.stringItems node.wording := by
  rcases Element.isOneLineString_iff.mp isString with ⟨isKind, oneLine⟩
  rw [items_of_text (Element.isTerminal_of_isOfKind isKind (by decide)) isKind (Or.inl rfl), textItems,
    if_pos isKind, Text.escapeNewlines_eq_self oneLine]
  rfl

/-- A string is added to the line at hand. -/
theorem Passes.addsTo (passes : before.Passes settings path node after) (notes : before.OnlyNotes)
    (isString : node.isOneLineString = true) :
    ∃ line, before.line = some line ∧
      before.AddsTo settings path node (settings.stringItems node.wording) line.number := by
  have isKind := (Element.isOneLineString_iff.mp isString).1
  have terminal := Element.isTerminal_of_isOfKind isKind (by decide)
  have notOther (kind : Nat) (different : Kind.string ≠ kind) : ¬ node.isOfKind kind = true := by
    simp [Element.not_isOfKind isKind kind different]
  cases passes with
  | construct isConstruct visited =>
      rw [Element.isTerminal_iff.mp terminal] at isConstruct
      cases isConstruct
  | terminal number isTerminal numbered visited =>
      cases visitTerminal_reads notes visited with
      | dedent isDedent => exact absurd isDedent (notOther _ (by decide))
      | newline _ _ isNewline => exact absurd isNewline (notOther _ (by decide))
      | indent _ _ _ isIndent => exact absurd isIndent (notOther _ (by decide))
      | finish _ _ _ isEnd => exact absurd isEnd (notOther _ (by decide))
      | marked _ _ _ _ canHold =>
          rcases canHold with isName | isDot
          · exact absurd isName (notOther _ (by decide))
          · exact absurd isDot (notOther _ (by decide))
      | written line middle items opened notDedent writes turned added =>
          rcases turnTo_cases turned with ⟨_, notString, _⟩ | ⟨_, rfl⟩
          · rw [notString] at isKind
            cases isKind
          · rcases takeAll_add_line opened added with ⟨longer, adds, _, isLonger⟩
            rw [← writes.items_eq terminal notDedent, items_of_isOneLineString isString] at adds
            exact ⟨line, opened, line, longer, after, opened, rfl, adds,
              .terminal number isTerminal numbered visited, isLonger⟩

end State

namespace Walk

variable {settings : Settings} {tree : Element}

/-- Where a walk stands when it meets a node. -/
theorem meets_line (complete : (ofTree settings tree).fault = none)
    {early late : List (State × Path × Element)} {state : State} {path : Path} {node : Element}
    (met : (ofTree settings tree).meetings tree = early ++ (state, path, node) :: late) :
    state.OnlyNotes ∧ (∃ after, state.Passes settings path node after) ∧
      ∀ line, state.line = some line → line.number = Element.lineBehind 1 (early.map (·.2.2)) := by
  rcases passage_of_met complete met with ⟨after, passage, passes, _⟩
  refine ⟨passage.onlyNotes State.onlyNotes_empty, ⟨after, passes⟩, ?_⟩
  intro line opened
  rcases passage.lineNumber State.onlyNotes_empty opened with ⟨start, isStart, behind⟩
  cases isStart
  exact behind

/-- A string on one line is added to the line of the last terminal before it that took the walk to its
own, or to the first line if there is none. -/
theorem addsTo_lineBehind (complete : (ofTree settings tree).fault = none)
    {early late : List (State × Path × Element)} {state : State} {path : Path} {node : Element}
    (met : (ofTree settings tree).meetings tree = early ++ (state, path, node) :: late)
    (isString : node.isOneLineString = true) :
    state.AddsTo settings path node (settings.stringItems node.wording)
      (Element.lineBehind 1 (early.map (·.2.2))) := by
  rcases meets_line complete met with ⟨notes, ⟨after, passes⟩, stands⟩
  rcases passes.addsTo notes isString with ⟨line, opened, adds⟩
  rwa [stands line opened] at adds

/-- A symbol that a string on one line is written as stands in the block of the line that the walk had
come to. -/
theorem string_in_block (complete : (ofTree settings tree).fault = none)
    {early late : List (State × Path × Element)} {state : State} {path : Path} {node : Element}
    (met : (ofTree settings tree).meetings tree = early ++ (state, path, node) :: late)
    (isString : node.isOneLineString = true) (ended : tree.EndsSource)
    (positive : ∀ terminal ∈ tree.terminals, 1 ≤ terminal.line)
    (ascending : ((tree.terminals.filter Element.settles).map Element.line).Pairwise (· ≤ ·))
    (isSymbol : (settings.stringItems node.wording).any Item.isSymbol = true) :
    ∃ line, some line ∈ (ofTree settings tree).state.blocks ∧
      line.number = Element.lineBehind 1 (early.map (·.2.2)) ∧
      settings.stringItems node.wording <:+:
        ((ofTree settings tree).ledger settings tree).on line.number := by
  rcases ofTree_accounts ended positive ascending complete with ⟨there, lines, accounts⟩
  have stays : node.placeBehind (Element.lineBehind 1 (early.map (·.2.2))) =
      Element.lineBehind 1 (early.map (·.2.2)) := by
    simp [Element.placeBehind, Element.settles, (Element.isOneLineString_iff.mp isString).1]
  have entered : (ofTree settings tree).ledger settings tree =
      State.ledgerFrom settings 1 early ++
        (Element.lineBehind 1 (early.map (·.2.2)), settings.stringItems node.wording) ::
          State.ledgerFrom settings (Element.lineBehind 1 (early.map (·.2.2))) late := by
    rw [ledger, met, State.ledgerFrom_append, State.ledgerFrom, stays,
      State.items_of_isOneLineString isString]
  rw [entered] at accounts ⊢
  rcases accounts.exists_line isSymbol with ⟨line, member, isPlace, within⟩
  refine ⟨line, ?_, isPlace, within⟩
  rw [accounts.blocks]
  exact List.mem_map_of_mem member

/-- A split of the nodes of a tree, taken without their places, is a split of the meetings with them. -/
theorem exists_meeting (complete : (ofTree settings tree).fault = none) {early late : List Element}
    {node : Element} (split : (tree.preorder []).map (·.2) = early ++ node :: late) :
    ∃ before state path behind,
      (ofTree settings tree).meetings tree = before ++ (state, path, node) :: behind ∧
        before.map (·.2.2) = early := by
  rcases List.map_eq_append_iff.mp split with ⟨before, rest, isSplit, rfl, isRest⟩
  rcases List.map_eq_cons_iff.mp isRest with ⟨⟨path, found⟩, behind, rfl, rfl, _⟩
  rcases exists_met complete isSplit with ⟨early, state, late, met, isBefore, _⟩
  exact ⟨early, state, path, late, met, by rw [← isBefore, List.map_map]; rfl⟩

/-- A string on one line is added to the line that the walk has come to.  All of them are added to
their own lines exactly if each of them follows a terminal of its line, other strings and dedents left
aside.  A symbol that such a string is written as is found in the block of the line that the walk had
come to. -/
theorem strings_placed (settings : Settings) (tree : Element)
    (complete : (ofTree settings tree).fault = none) :
    (∀ early state path node late,
      (ofTree settings tree).meetings tree = early ++ (state, path, node) :: late →
        node.isOneLineString = true →
          state.AddsTo settings path node (settings.stringItems node.wording)
              (Element.lineBehind 1 (early.map (·.2.2))) ∧
            (tree.EndsSource → (∀ terminal ∈ tree.terminals, 1 ≤ terminal.line) →
              ((tree.terminals.filter Element.settles).map Element.line).Pairwise (· ≤ ·) →
              (settings.stringItems node.wording).any Item.isSymbol = true →
              ∃ line, some line ∈ (ofTree settings tree).state.blocks ∧
                line.number = Element.lineBehind 1 (early.map (·.2.2)) ∧
                settings.stringItems node.wording <:+:
                  ((ofTree settings tree).ledger settings tree).on line.number)) ∧
      ((∀ early state path node late,
        (ofTree settings tree).meetings tree = early ++ (state, path, node) :: late →
          node.isOneLineString = true →
            state.AddsTo settings path node (settings.stringItems node.wording) node.line) ↔
        ∀ early node late, (tree.preorder []).map (·.2) = early ++ node :: late →
          node.isOneLineString = true → Element.lineBehind 1 early = node.line) := by
  refine ⟨?_, ?_, ?_⟩
  · intro early state path node late met isString
    exact ⟨addsTo_lineBehind complete met isString, string_in_block complete met isString⟩
  · intro own early node late split isString
    rcases exists_meeting complete split with ⟨before, state, path, behind, met, rfl⟩
    exact (addsTo_lineBehind complete met isString).number_unique
      (own before state path node behind met isString)
  · intro follows early state path node late met isString
    have split : (tree.preorder []).map (·.2) = early.map (·.2.2) ++ node :: late.map (·.2.2) := by
      rw [← meetings_nodes complete, met, List.map_map, List.map_append, List.map_cons]
      rfl
    rw [← follows _ node _ split isString]
    exact addsTo_lineBehind complete met isString

/-- The tree of a statement that is a single terminal. -/
def loneStatement (terminal : Element) (line : Int) : Element :=
  .node [.int 268, .node [.int 269,
    [270, 271, 272, 302, 306, 307, 308, 309, 312, 313, 314, 315, 316, 317, 318, 319, 320].foldr
      (fun kind below => .node [.int kind, below]) terminal,
    .node [.int 4, .text "", .int line]]]

/-- The tree of a name and, on the next line, a string. -/
def nameThenString : Element :=
  .node [.int 257, loneStatement (.node [.int 1, .text "a", .int 1]) 1,
    loneStatement (.node [.int 3, .text "'b'", .int 2]) 2, .node [.int 0, .text "", .int 3]]

theorem nameThenString_complete : (ofTree { stringSymbols := true } nameThenString).fault = none := by
  rw [ofTree_eq_visitEach]
  decide +kernel

/-- The string of the second line is met when the walk stands on the first. -/
theorem nameThenString_meets : ∃ early state path late,
    (ofTree { stringSymbols := true } nameThenString).meetings nameThenString =
        early ++ (state, path, .node [.int 3, .text "'b'", .int 2]) :: late ∧
      Element.lineBehind 1 (early.map (·.2.2)) = 1 := by
  have split : (nameThenString.preorder []).map (·.2) =
      ((nameThenString.preorder []).map (·.2)).take 41 ++ .node [.int 3, .text "'b'", .int 2] ::
        ((nameThenString.preorder []).map (·.2)).drop 42 := rfl
  rcases exists_meeting nameThenString_complete split with ⟨early, state, path, late, met, isEarly⟩
  refine ⟨early, state, path, late, met, ?_⟩
  rw [isEarly]
  decide +kernel

theorem strings_placed_nameThenString :
    (ofTree { stringSymbols := true } nameThenString).fault = none ∧ nameThenString.EndsSource ∧
      (∀ terminal ∈ nameThenString.terminals, 1 ≤ terminal.line) ∧
      ((nameThenString.terminals.filter Element.settles).map Element.line).Pairwise (· ≤ ·) ∧
      ∃ line, some line ∈ (ofTree { stringSymbols := true } nameThenString).state.blocks ∧
        line.number = 1 ∧
        [.plain "'", .symbol none "b", .plain "'"] <:+:
          ((ofTree { stringSymbols := true } nameThenString).ledger { stringSymbols := true }
            nameThenString).on line.number := by
  have ended : nameThenString.EndsSource := ⟨.node [.int 0, .text "", .int 3], rfl, rfl⟩
  have positive : ∀ terminal ∈ nameThenString.terminals, 1 ≤ terminal.line := by decide +kernel
  have ascending :
      ((nameThenString.terminals.filter Element.settles).map Element.line).Pairwise (· ≤ ·) := by
    decide +kernel
  rcases nameThenString_meets with ⟨early, state, path, late, met, isFirst⟩
  have placed := (strings_placed { stringSymbols := true } nameThenString nameThenString_complete).1
    early state path _ late met (by decide +kernel)
  rcases placed.2 ended positive ascending (by decide +kernel) with ⟨line, member, isPlace, within⟩
  exact ⟨nameThenString_complete, ended, positive, ascending, line, member, isPlace.trans isFirst,
    within⟩

/-- The string that begins the second statement is not added to its own line. -/
theorem nameThenString_misplaced :
    (ofTree { stringSymbols := true } nameThenString).fault = none ∧
      ¬ ∀ early state path node late,
        (ofTree { stringSymbols := true } nameThenString).meetings nameThenString =
            early ++ (state, path, node) :: late →
          node.isOneLineString = true →
            state.AddsTo { stringSymbols := true } path node
              (Settings.stringItems { stringSymbols := true } node.wording) node.line := by
  refine ⟨nameThenString_complete, ?_⟩
  intro own
  rcases nameThenString_meets with ⟨early, state, path, late, met, isFirst⟩
  have isString : (Element.node [.int 3, .text "'b'", .int 2]).isOneLineString = true := by
    decide +kernel
  have added := addsTo_lineBehind nameThenString_complete met isString
  rw [isFirst] at added
  exact absurd (added.number_unique (own early state path _ late met isString)) (by decide +kernel)

end Walk

end CrossRef
