import CrossRef.Proofs.Symbols

/-!
# Line numbers

Most terminals take a walk to their own line.  A string stays on the line at hand, and so does a
dedent, which may add the end of a function to it.  A ledger notes for every node that is met the line
on which it is placed by this rule, and the items that it adds there.  If the numbers never go back,
each line is begun once, so every finished line is the one that the items placed on it make, and the
numbers of the finished lines increase.
-/

namespace CrossRef

namespace Element

/-- Whether a node takes a walk to its own line. -/
def settles (node : Element) : Bool :=
  node.isTerminal && !(node.isOfKind Kind.string || node.isOfKind Kind.dedent)

/-- The number of the line that a terminal stands on. -/
def line (node : Element) : Nat :=
  match node.lineNumber with
  | .ok number => number.toNat
  | .error _ => 0

/-- The line on which a node is placed behind one on the given line. -/
def placeBehind (here : Nat) (node : Element) : Nat :=
  if node.settles then node.line else here

/-- The line of the last of some nodes that takes a walk to its own, or the given one if none does. -/
def lineBehind (here : Nat) (nodes : List Element) : Nat :=
  ((nodes.filter settles).getLast?.map line).getD here

theorem lineBehind_cons (here : Nat) (node : Element) (rest : List Element) :
    lineBehind here (node :: rest) = lineBehind (node.placeBehind here) rest := by
  unfold lineBehind placeBehind
  cases goes : node.settles with
  | false => simp [goes]
  | true =>
      rw [List.filter_cons_of_pos goes, List.getLast?_cons]
      cases (rest.filter settles).getLast? <;> rfl

theorem line_eq {node : Element} {number : Int} (numbered : node.lineNumber = .ok number) :
    node.line = number.toNat := by
  simp [line, numbered]

end Element

namespace Line

/-- The line that some items make. -/
def build (number : Nat) (items : List Item) : Except Fault Line :=
  items.foldlM add { number := number }

theorem build_append {number : Nat} {items more : List Item} {line longer : Line}
    (built : build number items = .ok line) (added : more.foldlM add line = .ok longer) :
    build number (items ++ more) = .ok longer := by
  unfold build at built ⊢
  rw [List.foldlM_append, built]
  exact added

/-- If all items can be added, so can the first, and the others go on from it. -/
theorem foldlM_add_cons {item : Item} {rest : List Item} {line longer : Line}
    (added : (item :: rest).foldlM add line = .ok longer) :
    ∃ next, line.add item = .ok next ∧ rest.foldlM add next = .ok longer := by
  rw [List.foldlM_cons] at added
  cases first : line.add item with
  | error fault =>
      rw [first] at added
      cases added
  | ok next =>
      rw [first] at added
      exact ⟨next, rfl, added⟩

theorem foldlM_add {items : List Item} {line longer : Line}
    (added : items.foldlM add line = .ok longer) (honest : line.Honest) :
    longer.number = line.number ∧ longer.Honest ∧
      longer.hasSymbol = (line.hasSymbol || items.any Item.isSymbol) := by
  induction items generalizing line with
  | nil =>
      cases added
      simp [honest]
  | cons item rest ih =>
      rcases foldlM_add_cons added with ⟨next, first, others⟩
      have adds := add_adds first
      have nextHonest := adds.honest honest
      rcases ih others nextHonest with ⟨number, longerHonest, symbols⟩
      refine ⟨number.trans adds.number, longerHonest, ?_⟩
      rw [symbols, nextHonest, adds.any_isSymbol, ← honest, List.any_cons, Bool.or_assoc]

/-- What is built has its number, and holds a symbol if one of the items is one. -/
theorem build_eq {number : Nat} {items : List Item} {line : Line}
    (built : build number items = .ok line) :
    line.number = number ∧ line.hasSymbol = items.any Item.isSymbol := by
  rcases foldlM_add built rfl with ⟨isNumber, _, symbols⟩
  exact ⟨isNumber, by simpa using symbols⟩

end Line

/-- For each node that a walk meets, the line on which it is placed and the items that it adds. -/
abbrev Ledger := List (Nat × List Item)

namespace Ledger

/-- The items that are placed on a line, in order. -/
def on (ledger : Ledger) (number : Nat) : List Item :=
  ledger.flatMap fun entry => if entry.1 = number then entry.2 else []

theorem on_append (early late : Ledger) (number : Nat) :
    on (early ++ late) number = early.on number ++ late.on number :=
  List.flatMap_append

theorem on_singleton (here number : Nat) (items : List Item) :
    on [(here, items)] number = if here = number then items else [] := by
  simp [on]

/-- A line that has not been reached is empty. -/
theorem on_eq_nil {ledger : Ledger} {here number : Nat} (reached : ∀ entry ∈ ledger, entry.1 ≤ here)
    (beyond : here < number) : ledger.on number = [] := by
  apply List.flatMap_eq_nil_iff.mpr
  intro entry member
  have bound := reached entry member
  exact if_neg (by omega)

/-- Finished lines and the line at hand are those that the items of a ledger make, which has come to
the given number. -/
structure Accounts (ledger : Ledger) (here : Nat) (lines : List Line) (blocks : List (Option Line))
    (current : Option Line) : Prop where
  blocks : blocks = lines.map some
  increasing : lines.Pairwise fun first second => first.number < second.number
  built : ∀ line ∈ lines, Line.build line.number (ledger.on line.number) = .ok line
  reached : ∀ entry ∈ ledger, entry.1 ≤ here
  opened : ∀ line, current = some line →
    Line.build here (ledger.on here) = .ok line ∧ ∀ finished ∈ lines, finished.number < here
  closed : ∀ finished ∈ lines, finished.number ≤ here
  covered : ∀ entry ∈ ledger, entry.2.any Item.isSymbol = true →
    entry.1 = here ∧ current ≠ none ∨ ∃ line ∈ lines, line.number = entry.1

variable {ledger : Ledger} {here : Nat} {lines : List Line} {blocks : List (Option Line)}
  {current : Option Line}

theorem accounts_start : Accounts [] 1 [] [] (some { number := 1 }) where
  blocks := rfl
  increasing := List.Pairwise.nil
  built := by simp
  reached := by simp
  opened := by
    rintro line ⟨⟩
    exact ⟨rfl, by simp⟩
  closed := by simp
  covered := by simp

/-- A node that adds nothing changes nothing. -/
theorem Accounts.idle (accounts : Accounts ledger here lines blocks current) :
    Accounts (ledger ++ [(here, [])]) here lines blocks current := by
  have same (number : Nat) : on (ledger ++ [(here, [])]) number = ledger.on number := by
    simp [on_append, on_singleton]
  refine ⟨accounts.blocks, accounts.increasing, ?_, ?_, ?_, accounts.closed, ?_⟩
  · intro line member
    rw [same]
    exact accounts.built line member
  · intro entry member
    rcases List.mem_append.mp member with old | new
    · exact accounts.reached entry old
    · rw [List.mem_singleton.mp new]
  · intro line isCurrent
    rw [same]
    exact accounts.opened line isCurrent
  · intro entry member isSymbol
    rcases List.mem_append.mp member with old | new
    · exact accounts.covered entry old isSymbol
    · rw [List.mem_singleton.mp new] at isSymbol
      cases isSymbol

/-- What is added to the line at hand is placed on it. -/
theorem Accounts.add {line longer : Line} {items : List Item}
    (accounts : Accounts ledger here lines blocks (some line))
    (added : items.foldlM Line.add line = .ok longer) :
    Accounts (ledger ++ [(here, items)]) here lines blocks (some longer) := by
  rcases accounts.opened line rfl with ⟨built, earlier⟩
  refine ⟨accounts.blocks, accounts.increasing, ?_, ?_, ?_, accounts.closed, ?_⟩
  · intro finished member
    have before := earlier finished member
    rw [on_append, on_singleton, if_neg (by omega), List.append_nil]
    exact accounts.built finished member
  · intro entry member
    rcases List.mem_append.mp member with old | new
    · exact accounts.reached entry old
    · rw [List.mem_singleton.mp new]
  · rintro _ ⟨⟩
    rw [on_append, on_singleton, if_pos rfl]
    exact ⟨Line.build_append built added, earlier⟩
  · intro entry member isSymbol
    rcases List.mem_append.mp member with old | new
    · rcases accounts.covered entry old isSymbol with ⟨isHere, _⟩ | finished
      · exact Or.inl ⟨isHere, by simp⟩
      · exact Or.inr finished
    · rw [List.mem_singleton.mp new]
      exact Or.inl ⟨rfl, by simp⟩

/-- The line at hand is finished, or dropped if it holds no symbol. -/
theorem Accounts.close {line : Line} (accounts : Accounts ledger here lines blocks (some line)) :
    ∃ more, Accounts ledger here more
      (if line.hasSymbol then blocks ++ [some line] else blocks) none := by
  rcases accounts.opened line rfl with ⟨built, earlier⟩
  rcases Line.build_eq built with ⟨isHere, symbols⟩
  cases hasSymbol : line.hasSymbol with
  | true =>
      refine ⟨lines ++ [line], ?_, ?_, ?_, accounts.reached, by simp, ?_, ?_⟩
      · simp [accounts.blocks]
      · rw [List.pairwise_append]
        refine ⟨accounts.increasing, List.pairwise_singleton _ _, ?_⟩
        intro finished member last isLast
        rw [List.mem_singleton.mp isLast, isHere]
        exact earlier finished member
      · intro finished member
        rcases List.mem_append.mp member with old | new
        · exact accounts.built finished old
        · rw [List.mem_singleton.mp new, isHere]
          exact built
      · intro finished member
        rcases List.mem_append.mp member with old | new
        · exact accounts.closed finished old
        · rw [List.mem_singleton.mp new, isHere]
      · intro entry member isSymbol
        right
        rcases accounts.covered entry member isSymbol with ⟨atHand, _⟩ | ⟨finished, old, isNumber⟩
        · exact ⟨line, by simp, isHere.trans atHand.symm⟩
        · exact ⟨finished, List.mem_append_left _ old, isNumber⟩
  | false =>
      refine ⟨lines, accounts.blocks, accounts.increasing, accounts.built, accounts.reached, by simp,
        accounts.closed, ?_⟩
      intro entry member isSymbol
      right
      rcases accounts.covered entry member isSymbol with ⟨atHand, _⟩ | finished
      · rw [hasSymbol] at symbols
        rcases List.any_eq_true.mp isSymbol with ⟨item, inEntry, isItem⟩
        have isOn : item ∈ ledger.on here :=
          List.mem_flatMap.mpr ⟨entry, member, by rwa [if_pos atHand]⟩
        rw [List.any_eq_true.mpr ⟨item, isOn, isItem⟩] at symbols
        cases symbols
      · exact finished

/-- A line with a greater number is begun empty. -/
theorem Accounts.begin {next : Nat} (accounts : Accounts ledger here lines blocks none)
    (later : here < next) : Accounts ledger next lines blocks (some { number := next }) := by
  refine ⟨accounts.blocks, accounts.increasing, accounts.built, ?_, ?_, ?_, ?_⟩
  · intro entry member
    have bound := accounts.reached entry member
    omega
  · rintro _ ⟨⟩
    rw [on_eq_nil accounts.reached later]
    refine ⟨rfl, ?_⟩
    intro finished member
    have bound := accounts.closed finished member
    omega
  · intro finished member
    have bound := accounts.closed finished member
    omega
  · intro entry member isSymbol
    rcases accounts.covered entry member isSymbol with ⟨_, isOpen⟩ | finished
    · exact absurd rfl isOpen
    · exact Or.inr finished

/-- When no line is at hand, a symbol stands in the finished line on which it was placed. -/
theorem Accounts.exists_line {early late : Ledger} {place : Nat} {items : List Item}
    (accounts : Accounts (early ++ (place, items) :: late) here lines blocks none)
    (isSymbol : items.any Item.isSymbol = true) :
    ∃ line ∈ lines, line.number = place ∧
      items <:+: on (early ++ (place, items) :: late) line.number := by
  rcases accounts.covered (place, items) (by simp) isSymbol with ⟨_, isOpen⟩ | ⟨line, member, isPlace⟩
  · exact absurd rfl isOpen
  · refine ⟨line, member, isPlace, early.on line.number, late.on line.number, ?_⟩
    simp [on, isPlace]

end Ledger

namespace State

variable {settings : Settings} {before middle after : State} {path : Path} {node : Element}
  {number : Int} {ledger : Ledger} {here : Nat} {lines : List Line} {line : Line}

theorem flush_blocks (opened : before.line = some line) :
    before.flush.blocks = if line.hasSymbol then before.blocks ++ [some line] else before.blocks := by
  unfold flush
  simp only [opened]
  split <;> rfl

theorem commit_accounts (opened : before.line = some line)
    (accounts : ledger.Accounts here lines before.blocks before.line)
    (committed : before.commit (.int number) = ⟨after, none⟩) (later : here < number.toNat) :
    after.line.isSome = true ∧ ∃ more, ledger.Accounts number.toNat more after.blocks after.line := by
  rw [opened] at accounts
  rcases accounts.close with ⟨more, closed⟩
  have isPresent : (Element.int number).isPresent = true := by
    have nonzero : number ≠ 0 := by omega
    simp [Element.isPresent, nonzero]
  have starts : Line.start (.int number) = .ok { number := number.toNat } := by
    have positive : 0 < number := by omega
    simp [Line.start, positive]
  simp only [commit, isPresent, starts, if_true] at committed
  cases committed
  refine ⟨rfl, more, ?_⟩
  rw [flush_blocks opened]
  exact closed.begin later

theorem finish_accounts (opened : before.line = some line)
    (accounts : ledger.Accounts here lines before.blocks before.line)
    (ended : before.commit .null = ⟨after, none⟩) :
    ∃ more, ledger.Accounts here more after.blocks after.line := by
  rw [opened] at accounts
  rcases accounts.close with ⟨more, closed⟩
  rcases commit_cases ended with ⟨next, started, _⟩ | rfl
  · cases started
  · refine ⟨more, ?_⟩
    rw [flush_blocks opened]
    exact closed

/-- Going to the line of a terminal begins a new line or stays on the line at hand. -/
theorem turnTo_accounts (opened : before.line = some line)
    (accounts : ledger.Accounts here lines before.blocks before.line)
    (isTerminal : node.isTerminal = true) (notDedent : node.isOfKind Kind.dedent = false)
    (numbered : node.lineNumber = .ok number) (positive : 1 ≤ here)
    (notBack : node.settles = true → here ≤ node.line)
    (turned : before.turnTo line number node = ⟨middle, none⟩) :
    middle.line.isSome = true ∧
      ∃ more, ledger.Accounts (node.placeBehind here) more middle.blocks middle.line := by
  have isHere : line.number = here := (Line.build_eq (accounts.opened line opened).1).1
  have isLine := Element.line_eq numbered
  rcases turnTo_cases turned with ⟨differs, notString, committed⟩ | ⟨stays, rfl⟩
  · have goes : node.settles = true := by
      simp [Element.settles, isTerminal, notString, notDedent]
    have notBefore := notBack goes
    rw [Element.placeBehind, if_pos goes, isLine]
    exact commit_accounts opened accounts committed (by omega)
  · have sameLine : node.placeBehind here = here := by
      unfold Element.placeBehind
      split
      next goes =>
        have notString : node.isOfKind Kind.string = false := by
          simp only [Element.settles, Bool.and_eq_true, Bool.not_eq_true', Bool.or_eq_false_iff] at goes
          exact goes.2.1
        have same : number = line.number := stays.resolve_right (by simp [notString])
        omega
      next => rfl
    rw [sameLine, opened]
    rw [opened] at accounts
    exact ⟨rfl, lines, accounts⟩

/-- The items that the text of a terminal makes when it is met in the given state. -/
def textItems (settings : Settings) (state : State) (path : Path) (node : Element) : List Item :=
  if node.isOfKind Kind.string then
    match settings.stringSymbols, quotedIdentifier? node.wording with
    | true, some (opening, name, closing) => [.plain opening, .symbol none name, .plain closing]
    | _, _ => [.plain (Text.escapeNewlines node.wording)]
  else
    match node.isOfKind Kind.name || node.isOfKind Kind.dot, state.labelAt? path with
    | true, some (.known mark) => [.symbol (some mark) node.wording]
    | _, _ =>
      if node.isOfKind Kind.name && !settings.grammar.isKeyword (.text node.wording) then
        [.symbol none node.wording]
      else [.plain node.wording]

/-- The items that a node adds to its line when it is met in the given state. -/
def items (settings : Settings) (state : State) (path : Path) (node : Element) : List Item :=
  if state.endsFunction node then [.symbol (some .functionEnd) ""]
  else if !node.isTerminal || node.isOfKind Kind.dedent || node.isOfKind Kind.newline ||
      node.isOfKind Kind.indent || node.isOfKind Kind.endMarker then []
  else state.textItems settings path node

theorem items_of_text {kind : Nat} (isTerminal : node.isTerminal = true)
    (isKind : node.isOfKind kind = true)
    (isText : kind = Kind.string ∨ kind = Kind.name ∨ kind = Kind.dot) :
    before.items settings path node = before.textItems settings path node := by
  have other (right : Nat) (different : kind ≠ right) := Element.not_isOfKind isKind right different
  rcases isText with rfl | rfl | rfl <;>
    simp [items, endsFunction, isTerminal, other Kind.dedent (by decide),
      other Kind.newline (by decide), other Kind.indent (by decide), other Kind.endMarker (by decide)]

theorem items_of_mark {mark : Mark} (isTerminal : node.isTerminal = true)
    (canHold : node.isOfKind Kind.name = true ∨ node.isOfKind Kind.dot = true)
    (held : before.labelAt? path = some (.known mark)) :
    before.items settings path node = [.symbol (some mark) node.wording] := by
  rcases canHold with isName | isDot
  · rw [items_of_text isTerminal isName (by simp)]
    simp [textItems, Element.not_isOfKind isName Kind.string (by decide), isName, held]
  · rw [items_of_text isTerminal isDot (by simp)]
    simp [textItems, Element.not_isOfKind isDot Kind.string (by decide), isDot, held]

/-- A name or a dot that adds a symbol takes a walk to its own line. -/
theorem settles_of_symbol (canHold : node.isOfKind Kind.name = true ∨ node.isOfKind Kind.dot = true)
    (isSymbol : (before.items settings path node).any Item.isSymbol = true) : node.settles = true := by
  have notDedent := Element.not_isOfKind_of_canHold canHold Kind.dedent (by decide) (by decide)
  have notString := Element.not_isOfKind_of_canHold canHold Kind.string (by decide) (by decide)
  cases isTerminal : node.isTerminal with
  | true => simp [Element.settles, isTerminal, notDedent, notString]
  | false => simp [items, endsFunction, notDedent, isTerminal] at isSymbol

theorem Writes.items_eq {items : List Item} (isTerminal : node.isTerminal = true)
    (notDedent : node.isOfKind Kind.dedent = false) (writes : Writes settings before path node items) :
    before.items settings path node = items := by
  cases writes with
  | quoted isString wanted found =>
      rw [items_of_text isTerminal isString (by simp)]
      simp [textItems, isString, wanted, found]
  | string isString unwanted present =>
      rw [items_of_text isTerminal isString (by simp), textItems, if_pos isString]
      rcases unwanted with unwanted | notFound
      · rw [unwanted]
      · rw [notFound]
        cases settings.stringSymbols <;> rfl
  | keyword isName unmarked reserved present =>
      rw [items_of_text isTerminal isName (by simp)]
      simp [textItems, Element.not_isOfKind isName Kind.string (by decide), isName, unmarked, reserved]
  | name isName unmarked free present =>
      rw [items_of_text isTerminal isName (by simp)]
      simp [textItems, Element.not_isOfKind isName Kind.string (by decide), isName, unmarked, free]
  | other notNewline notIndent notString notName unmarked notEnd present =>
      cases isDot : node.isOfKind Kind.dot with
      | true =>
          rw [items_of_text isTerminal isDot (by simp)]
          simp [textItems, notString, notName, isDot, unmarked isDot]
      | false =>
          simp [State.items, endsFunction, textItems, isTerminal, notDedent, notNewline, notIndent,
            notEnd, notString, notName, isDot]

/-- What is added to a line is added item by item. -/
theorem takeAll_add_line {grammar : Grammar} {items : List Item} (opened : before.line = some line)
    (added : before.takeAll grammar (items.map .add) = ⟨after, none⟩) :
    ∃ longer, items.foldlM Line.add line = .ok longer ∧ after.blocks = before.blocks ∧
      after.line = some longer := by
  induction items generalizing before line with
  | nil =>
      cases added
      exact ⟨line, rfl, rfl, opened⟩
  | cons item rest ih =>
      rcases takeAll_add_cons added with ⟨middle, taken, others⟩
      rcases addItem_cases taken with ⟨_, longer, isLine, lengthened, rfl⟩
      rw [opened] at isLine
      cases isLine
      rcases ih rfl others with ⟨last, adds, blocks, isLast⟩
      refine ⟨last, ?_, blocks, isLast⟩
      rw [List.foldlM_cons, lengthened]
      exact adds

theorem dedent_accounts (isDedent : node.isOfKind Kind.dedent = true)
    (accounts : ledger.Accounts here lines before.blocks before.line)
    (went : before.dedent = ⟨after, none⟩) :
    Ledger.Accounts (ledger ++ [(here, before.items settings path node)]) here lines after.blocks
      after.line := by
  rcases dedent_cases went with ⟨ends, added⟩ | ⟨goesOn, rfl⟩
  · have adds : before.items settings path node = [.symbol (some .functionEnd) ""] := by
      simp [items, endsFunction, isDedent, ends]
    rcases addItem_cases added with ⟨line, longer, opened, lengthened, rfl⟩
    have isOpen : before.line = some line := opened
    rw [isOpen] at accounts
    rw [adds]
    apply accounts.add
    rw [List.foldlM_cons, lengthened]
    rfl
  · have nothing : before.items settings path node = [] := by
      simp [items, endsFunction, isDedent, goesOn]
    rw [nothing]
    exact accounts.idle

/-- A terminal is placed on its line with the items that it adds. -/
theorem Reads.accounts (reads : Reads settings before path node number after)
    (isTerminal : node.isTerminal = true) (numbered : node.lineNumber = .ok number)
    (positive : 1 ≤ here) (notBack : node.settles = true → here ≤ node.line)
    (accounts : ledger.Accounts here lines before.blocks before.line) :
    ∃ more, Ledger.Accounts (ledger ++ [(node.placeBehind here, before.items settings path node)])
      (node.placeBehind here) more after.blocks after.line := by
  have silent {kind : Nat} (isKind : node.isOfKind kind = true)
      (isSilent : kind = Kind.newline ∨ kind = Kind.indent ∨ kind = Kind.endMarker) :
      node.isOfKind Kind.dedent = false ∧ before.items settings path node = [] := by
    have notDedent : node.isOfKind Kind.dedent = false := by
      apply Element.not_isOfKind isKind
      rcases isSilent with rfl | rfl | rfl <;> decide
    refine ⟨notDedent, ?_⟩
    rcases isSilent with rfl | rfl | rfl <;> simp [State.items, endsFunction, notDedent, isKind]
  have goes {line : Line} {middle : State} (opened : before.line = some line)
      (notDedent : node.isOfKind Kind.dedent = false)
      (turned : before.turnTo line number node = ⟨middle, none⟩) :=
    turnTo_accounts opened accounts isTerminal notDedent numbered positive notBack turned
  cases reads with
  | dedent isDedent went =>
      have stays : node.settles = false := by simp [Element.settles, isDedent]
      rw [Element.placeBehind, if_neg (by simp [stays])]
      exact ⟨lines, dedent_accounts isDedent accounts went⟩
  | newline line opened isNewline turned =>
      rcases silent isNewline (Or.inl rfl) with ⟨notDedent, nothing⟩
      rcases goes opened notDedent turned with ⟨_, more, there⟩
      rw [nothing]
      exact ⟨more, there.idle⟩
  | indent line middle opened isIndent turned went =>
      rcases silent isIndent (Or.inr (Or.inl rfl)) with ⟨notDedent, nothing⟩
      rcases goes opened notDedent turned with ⟨_, more, there⟩
      rw [nothing, went]
      exact ⟨more, there.idle⟩
  | finish line middle opened isEnd turned ended =>
      rcases silent isEnd (Or.inr (Or.inr rfl)) with ⟨notDedent, nothing⟩
      rcases goes opened notDedent turned with ⟨isOpen, more, there⟩
      rcases Option.isSome_iff_exists.mp isOpen with ⟨last, isLast⟩
      rcases finish_accounts isLast there ended with ⟨all, closed⟩
      rw [nothing]
      exact ⟨all, closed.idle⟩
  | marked line middle mark opened canHold held noEnd present turned added =>
      have notDedent := Element.not_isOfKind_of_canHold canHold Kind.dedent (by decide) (by decide)
      rcases goes opened notDedent turned with ⟨_, more, there⟩
      rcases addItem_cases added with ⟨last, longer, isLast, lengthened, rfl⟩
      have isOpen : middle.line = some last := isLast
      rw [isOpen] at there
      rw [items_of_mark isTerminal canHold held]
      refine ⟨more, there.add ?_⟩
      rw [List.foldlM_cons, lengthened]
      rfl
  | written line middle items opened notDedent writes turned added =>
      rcases goes opened notDedent turned with ⟨isOpen, more, there⟩
      rcases Option.isSome_iff_exists.mp isOpen with ⟨last, isLast⟩
      rcases takeAll_add_line isLast added with ⟨longer, adds, blocks, isLonger⟩
      rw [isLast] at there
      rw [writes.items_eq isTerminal notDedent, blocks, isLonger]
      exact ⟨more, there.add adds⟩

theorem Passes.accounts (passes : before.Passes settings path node after) (notes : before.OnlyNotes)
    (positive : 1 ≤ here) (notBack : node.settles = true → here ≤ node.line)
    (accounts : ledger.Accounts here lines before.blocks before.line) :
    ∃ more, Ledger.Accounts (ledger ++ [(node.placeBehind here, before.items settings path node)])
      (node.placeBehind here) more after.blocks after.line := by
  cases passes with
  | construct isConstruct visited =>
      have noTerminal : node.isTerminal = false := by simp [Element.isTerminal, isConstruct]
      have notDedent := Element.not_isOfKind_of_isConstruct isConstruct Kind.dedent (by decide)
      have nothing : before.items settings path node = [] := by
        simp [items, endsFunction, notDedent, noTerminal]
      have same := before.visitConstruct_samePage settings path node
      rw [visited] at same
      rw [Element.placeBehind, if_neg (by simp [Element.settles, noTerminal]), nothing, same.blocks,
        same.line]
      exact ⟨lines, accounts.idle⟩
  | terminal number isTerminal numbered visited =>
      have reads := visitTerminal_reads notes visited
      exact reads.accounts (Element.isTerminal_iff.mpr isTerminal) numbered positive notBack accounts

/-- The ledger of the nodes that are met from the given line on. -/
def ledgerFrom (settings : Settings) : Nat → List (State × Path × Element) → Ledger
  | _, [] => []
  | here, (state, path, node) :: rest =>
    (node.placeBehind here, state.items settings path node) ::
      ledgerFrom settings (node.placeBehind here) rest

theorem ledgerFrom_append (settings : Settings) (here : Nat)
    (early late : List (State × Path × Element)) :
    ledgerFrom settings here (early ++ late) = ledgerFrom settings here early ++
      ledgerFrom settings (Element.lineBehind here (early.map (·.2.2))) late := by
  induction early generalizing here with
  | nil => rfl
  | cons entry rest ih =>
      rcases entry with ⟨state, path, node⟩
      rw [List.cons_append, ledgerFrom, ih, List.map_cons, Element.lineBehind_cons]
      rfl

/-- Along a chain of visits whose lines never go back, every line is the one that the items placed on
it make. -/
theorem Passage.accounts {start finish : State} {meetings : List (State × Path × Element)}
    (passage : Passage settings start meetings finish) (notes : start.OnlyNotes) (positive : 1 ≤ here)
    (ascending : (here :: ((meetings.map (·.2.2)).filter Element.settles).map
      Element.line).Pairwise (· ≤ ·))
    (accounts : ledger.Accounts here lines start.blocks start.line) :
    ∃ there more, Ledger.Accounts (ledger ++ ledgerFrom settings here meetings) there more
      finish.blocks finish.line := by
  induction passage generalizing here ledger lines with
  | nil state => exact ⟨here, lines, by simpa [ledgerFrom] using accounts⟩
  | @cons before middle after path node rest first others ih =>
      rcases List.pairwise_cons.mp ascending with ⟨bounded, ordered⟩
      have notBack : node.settles = true → here ≤ node.line := by
        intro goes
        apply bounded
        simp [goes]
      have reaches : here ≤ node.placeBehind here := by
        unfold Element.placeBehind
        split
        next goes => exact notBack goes
        next => exact Nat.le_refl here
      have goesOn : (node.placeBehind here :: ((rest.map (·.2.2)).filter Element.settles).map
          Element.line).Pairwise (· ≤ ·) := by
        cases goes : node.settles with
        | true => simpa [goes, Element.placeBehind] using ordered
        | false => simpa [goes, Element.placeBehind] using ascending
      rcases first.accounts notes positive notBack accounts with ⟨more, kept⟩
      rcases ih (first.onlyNotes notes) (by omega) goesOn kept with ⟨there, all, last⟩
      refine ⟨there, all, ?_⟩
      simpa [ledgerFrom] using last

end State

namespace Walk

/-- The ledger of a walk of the whole tree, which begins on line one. -/
def ledger (settings : Settings) (walk : Walk) (tree : Element) : Ledger :=
  State.ledgerFrom settings 1 (walk.meetings tree)

variable {settings : Settings} {tree : Element}

theorem ofTree_line (ended : tree.EndsSource) (complete : (ofTree settings tree).fault = none) :
    (ofTree settings tree).state.line = none := by
  rcases ended with ⟨last, isLast, isEnd⟩
  apply (passage_ofTree complete).line_eq_none State.onlyNotes_empty _ isEnd
  rw [← isLast, Element.terminals, ← meetings_nodes complete]
  simp [Function.comp_def]

theorem ofTree_accounts (ended : tree.EndsSource)
    (positive : ∀ terminal ∈ tree.terminals, 1 ≤ terminal.line)
    (ascending : ((tree.terminals.filter Element.settles).map Element.line).Pairwise (· ≤ ·))
    (complete : (ofTree settings tree).fault = none) :
    ∃ there lines, ((ofTree settings tree).ledger settings tree).Accounts there lines
      (ofTree settings tree).state.blocks none := by
  have nodes : (((ofTree settings tree).meetings tree).map (·.2.2)).filter Element.settles =
      tree.terminals.filter Element.settles := by
    have all : ((ofTree settings tree).meetings tree).map (·.2.2) = (tree.preorder []).map (·.2) := by
      rw [← meetings_nodes complete, List.map_map]
      rfl
    rw [all, Element.terminals, List.filter_filter]
    apply List.filter_congr
    intro node _
    unfold Element.settles
    cases node.isTerminal <;> simp
  have fromOne : (1 :: ((((ofTree settings tree).meetings tree).map (·.2.2)).filter
      Element.settles).map Element.line).Pairwise (· ≤ ·) := by
    rw [nodes]
    refine List.pairwise_cons.mpr ⟨?_, ascending⟩
    intro number member
    rcases List.mem_map.mp member with ⟨terminal, settled, rfl⟩
    exact positive terminal (List.mem_of_mem_filter settled)
  have passage := passage_ofTree complete
  rcases passage.accounts State.onlyNotes_empty (Nat.le_refl 1) fromOne Ledger.accounts_start with
    ⟨there, lines, accounts⟩
  rw [ofTree_line ended complete] at accounts
  exact ⟨there, lines, accounts⟩

/-- Lines are numbered as their terminals are.  If the numbers of the terminals that take a walk to
their own lines never go back, the finished lines have increasing numbers, and each is the line that
the items placed on it make.  A name or a dot is placed on its own line, the end of a function on that
of the last terminal before the dedent that took the walk to its own line, and what is a symbol
stands in a finished line of that number. -/
theorem lines_placed (settings : Settings) (tree : Element) (ended : tree.EndsSource)
    (positive : ∀ terminal ∈ tree.terminals, 1 ≤ terminal.line)
    (ascending : ((tree.terminals.filter Element.settles).map Element.line).Pairwise (· ≤ ·))
    (complete : (ofTree settings tree).fault = none) :
    ∃ lines : List Line, (ofTree settings tree).state.blocks = lines.map some ∧
      (lines.Pairwise fun first second => first.number < second.number) ∧
      (∀ line ∈ lines, Line.build line.number
        (((ofTree settings tree).ledger settings tree).on line.number) = .ok line) ∧
      ∀ early state path node late,
        (ofTree settings tree).meetings tree = early ++ (state, path, node) :: late →
          (node.isOfKind Kind.name = true ∨ node.isOfKind Kind.dot = true →
            (state.items settings path node).any Item.isSymbol = true →
            ∃ line ∈ lines, line.number = node.line ∧ state.items settings path node <:+:
              ((ofTree settings tree).ledger settings tree).on line.number) ∧
          (state.endsFunction node = true →
            ∃ line ∈ lines, line.number = Element.lineBehind 1 (early.map (·.2.2)) ∧
              [.symbol (some .functionEnd) ""] <:+:
                ((ofTree settings tree).ledger settings tree).on line.number) := by
  rcases ofTree_accounts ended positive ascending complete with ⟨there, lines, accounts⟩
  refine ⟨lines, accounts.blocks, accounts.increasing, accounts.built, ?_⟩
  intro early state path node late split
  have entered : (ofTree settings tree).ledger settings tree =
      State.ledgerFrom settings 1 early ++
        (node.placeBehind (Element.lineBehind 1 (early.map (·.2.2))), state.items settings path node) ::
          State.ledgerFrom settings
            (node.placeBehind (Element.lineBehind 1 (early.map (·.2.2)))) late := by
    rw [ledger, split, State.ledgerFrom_append]
    rfl
  rw [entered] at accounts ⊢
  constructor
  · intro canHold isSymbol
    rcases accounts.exists_line isSymbol with ⟨line, member, isPlace, within⟩
    refine ⟨line, member, ?_, within⟩
    rw [isPlace, Element.placeBehind, if_pos (State.settles_of_symbol canHold isSymbol)]
  · intro ends
    have isDedent : node.isOfKind Kind.dedent = true := by
      simp only [State.endsFunction, Bool.and_eq_true] at ends
      exact ends.1
    have stays : node.settles = false := by simp [Element.settles, isDedent]
    have adds : state.items settings path node = [.symbol (some .functionEnd) ""] := by
      simp [State.items, ends]
    rcases accounts.exists_line (by simp [adds]) with ⟨line, member, isPlace, within⟩
    rw [adds] at within ⊢
    refine ⟨line, member, ?_, within⟩
    rw [isPlace, Element.placeBehind, if_neg (by simp [stays])]

/-- The tree of a function whose body is a string that reaches over two lines. -/
def documentedFunction : Element :=
  .node [.int 257,
    .node [.int 262, .node [.int 1, .text "def", .int 1], .node [.int 1, .text "f", .int 1],
      .node [.int 4, .text "", .int 1], .node [.int 5, .text "", .int 2],
      .node [.int 3, .text "\"\"\"a\nb\"\"\"", .int 3], .node [.int 4, .text "", .int 3],
      .node [.int 6, .text "", .int 4]],
    .node [.int 0, .text "", .int 4]]

theorem lines_placed_documentedFunction :
    documentedFunction.EndsSource ∧ (∀ terminal ∈ documentedFunction.terminals, 1 ≤ terminal.line) ∧
      ((documentedFunction.terminals.filter Element.settles).map Element.line).Pairwise (· ≤ ·) ∧
      (ofTree {} documentedFunction).fault = none ∧
      ∃ lines : List Line, (ofTree {} documentedFunction).state.blocks = lines.map some ∧
        (lines.Pairwise fun first second => first.number < second.number) ∧
        ∃ line ∈ lines, line.number = 3 ∧ [.symbol (some .functionEnd) ""] <:+:
          ((ofTree {} documentedFunction).ledger {} documentedFunction).on line.number := by
  have ended : documentedFunction.EndsSource := ⟨.node [.int 0, .text "", .int 4], rfl, rfl⟩
  have positive : ∀ terminal ∈ documentedFunction.terminals, 1 ≤ terminal.line := by decide +kernel
  have ascending :
      ((documentedFunction.terminals.filter Element.settles).map Element.line).Pairwise (· ≤ ·) := by
    decide +kernel
  have complete : (ofTree {} documentedFunction).fault = none := by
    rw [ofTree_eq_visitEach]
    decide +kernel
  -- The dedent is the ninth node that the walk meets.
  have dedent : ∃ meeting,
      ((ofTree {} documentedFunction).meetings documentedFunction)[8]? = some meeting ∧
        meeting.1.endsFunction meeting.2.2 = true ∧ Element.lineBehind 1
          ((((ofTree {} documentedFunction).meetings documentedFunction).take 8).map (·.2.2)) = 3 := by
    rw [ofTree_eq_visitEach]
    exact ⟨_, rfl, by decide +kernel, by decide +kernel⟩
  rcases dedent with ⟨⟨state, path, node⟩, isNinth, ends, isThird⟩
  rcases List.getElem?_eq_some_iff.mp isNinth with ⟨bound, isMeeting⟩
  have split := List.take_append_drop 8 ((ofTree {} documentedFunction).meetings documentedFunction)
  rw [List.drop_eq_getElem_cons bound, isMeeting] at split
  rcases lines_placed {} documentedFunction ended positive ascending complete with
    ⟨lines, blocks, increasing, _, placed⟩
  rcases (placed _ state path node _ split.symm).2 ends with ⟨line, member, isPlace, within⟩
  exact ⟨ended, positive, ascending, complete, lines, blocks, increasing, line, member,
    isPlace.trans isThird, within⟩

end Walk

end CrossRef
