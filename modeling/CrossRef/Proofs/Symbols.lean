import CrossRef.Proofs.LineForm
import CrossRef.Proofs.Terminals

/-!
# No symbol is lost

What a walk has written stands in two places, the finished lines and the line at hand.  The
invariant counts both: the names of their symbols, put together, are the texts of the symbols that
the terminals met so far have produced, and their ends of functions are as many as the dedents that
ended one.  Going to another line moves symbols from one place to the other, a line that is dropped
holds none, and the end of the source leaves nothing at hand, so at the end the finished lines hold
everything.
-/

namespace CrossRef

namespace Element

/-- A tree whose last terminal marks the end of the source. -/
def EndsSource (tree : Element) : Prop :=
  ∃ last, tree.terminals.getLast? = some last ∧ last.isOfKind Kind.endMarker = true

/-- A number compares as what it is equal to, in whichever form it arrives. -/
theorem atLeast_of_isNumber {element : Element} {number : Nat}
    (isNumber : element.isNumber number = true) (bound : Nat) :
    element.atLeast bound = .ok (decide (bound ≤ number)) := by
  cases element with
  | bool value | int value =>
      simp only [Element.isNumber, decide_eq_true_eq] at isNumber
      simp only [atLeast, Except.ok.injEq, decide_eq_decide]
      omega
  | float value =>
      simp only [Element.isNumber, Double.equals, Bool.and_eq_true, decide_eq_true_eq] at isNumber
      have scaled : bound * value.ratio.2 ≤ number * value.ratio.2 ↔ bound ≤ number :=
        Nat.mul_le_mul_right_iff value.ratio_snd_pos
      simp only [atLeast, Double.atLeast, isNumber.1, if_true, Except.ok.injEq, decide_eq_decide,
        isNumber.2]
      omega
  | null | text value | node elements | list elements => simp [Element.isNumber] at isNumber

/-- A construct is of no kind of terminal. -/
theorem not_isOfKind_of_isConstruct {node : Element} (isConstruct : node.isConstruct = .ok true)
    (number : Nat) (below : number < Kind.firstConstruct) : node.isOfKind number = false := by
  unfold Element.isConstruct at isConstruct
  split at isConstruct
  next kind hasKind =>
    rw [isOfKind_eq hasKind]
    cases isNumber : kind.isNumber number with
    | false => rfl
    | true => simp [atLeast_of_isNumber isNumber, Nat.not_le.mpr below] at isConstruct
  next => cases isConstruct

end Element

namespace State

/-- The symbols of the finished lines, in order. -/
def symbols (state : State) : List Item :=
  state.blocks.flatMap fun block => (block.map Line.symbols).getD []

/-- The symbols of the finished lines and of the line at hand, in order. -/
def allSymbols (state : State) : List Item :=
  state.symbols ++ (state.line.map Line.symbols).getD []

/-- The text that a terminal gives to the symbols when it is met in the given state: that of a name
unless it is a keyword without a mark, that of a dot with a mark, and the identifier in a string if
such symbols are wanted. -/
def symbolText (settings : Settings) (state : State) (path : Path) (node : Element) : String :=
  if node.isOfKind Kind.name then
    if settings.grammar.isKeyword (.text node.wording) && (state.labelAt? path).isNone then ""
    else node.wording
  else if node.isOfKind Kind.dot then
    if (state.labelAt? path).isSome then node.wording else ""
  else if node.isOfKind Kind.string && settings.stringSymbols then
    ((quotedIdentifier? node.wording).map (·.2.1)).getD ""
  else ""

/-- Whether a node that is met in the given state is a dedent that ends a function. -/
def endsFunction (state : State) (node : Element) : Bool :=
  node.isOfKind Kind.dedent && state.indentation - 1 = state.functionLevel

/-- The line at hand knows whether it holds a symbol. -/
def HonestLine (state : State) : Prop :=
  ∀ line, state.line = some line → line.Honest

/-- One state leads to another that is richer by the given text of symbols and number of function
ends. -/
structure Gains (before after : State) (text : String) (ends : Nat) : Prop where
  names : Item.names after.allSymbols = Item.names before.allSymbols ++ text
  ends : Item.ends after.allSymbols = Item.ends before.allSymbols + ends
  honest : after.HonestLine

theorem Gains.trans {first second third : State} {early late : String} {few more : Nat}
    (former : Gains first second early few) (latter : Gains second third late more) :
    Gains first third (early ++ late) (few + more) where
  names := by rw [latter.names, former.names, String.append_assoc]
  ends := by rw [latter.ends, former.ends, Nat.add_assoc]
  honest := latter.honest

theorem gains_of_allSymbols {before after : State}
    (kept : after.allSymbols = before.allSymbols ∧ after.HonestLine) : Gains before after "" 0 :=
  ⟨by simp [kept.1], by simp [kept.1], kept.2⟩

theorem allSymbols_of_samePage {before after : State} (same : SamePage before after) :
    after.allSymbols = before.allSymbols := by
  simp [allSymbols, State.symbols, same.blocks, same.line]

theorem gains_of_samePage {before after : State} (same : SamePage before after)
    (honest : before.HonestLine) : Gains before after "" 0 := by
  apply gains_of_allSymbols
  refine ⟨allSymbols_of_samePage same, ?_⟩
  unfold HonestLine
  rw [same.line]
  exact honest

/-- Finishing a line keeps its symbols, for a line that is dropped has none. -/
theorem symbols_flush {state : State} (honest : state.HonestLine) :
    state.flush.symbols = state.allSymbols := by
  unfold flush allSymbols symbols
  split
  next closed => simp [closed]
  next line opened =>
    split
    · simp [opened]
    next without =>
      have nothing := Line.symbols_of_not_hasSymbol (honest line opened) (by simpa using without)
      simp [opened, nothing]

theorem start_honest {next : Element} {line : Line} (started : Line.start next = .ok line) :
    line.symbols = [] ∧ line.Honest := by
  cases next with
  | int number =>
      simp only [Line.start] at started
      split at started
      · cases started
        exact ⟨rfl, rfl⟩
      · cases started
  | null | bool value | float value | text value | node elements | list elements => cases started

/-- Going to another line moves symbols to the finished lines and changes none. -/
theorem commit_allSymbols {before after : State} {next : Element} (honest : before.HonestLine)
    (committed : before.commit next = ⟨after, none⟩) :
    after.allSymbols = before.allSymbols ∧ after.HonestLine := by
  have flushed := symbols_flush honest
  rcases commit_cases committed with ⟨line, started, rfl⟩ | rfl
  · rcases start_honest started with ⟨noSymbols, lineHonest⟩
    constructor
    · rw [← flushed]
      simp [allSymbols, symbols, noSymbols]
    · rintro other isLine
      cases isLine
      exact lineHonest
  · constructor
    · rw [← flushed]
      simp [allSymbols, symbols]
    · rintro other isLine
      cases isLine

theorem turnTo_allSymbols {before after : State} {line : Line} {number : Int} {node : Element}
    (honest : before.HonestLine) (turned : before.turnTo line number node = ⟨after, none⟩) :
    after.allSymbols = before.allSymbols ∧ after.HonestLine := by
  rcases turnTo_cases turned with ⟨_, _, committed⟩ | ⟨_, rfl⟩
  · exact commit_allSymbols honest committed
  · exact ⟨rfl, honest⟩

theorem addItem_gains {before after : State} {item : Item} (honest : before.HonestLine)
    (added : before.addItem item = ⟨after, none⟩) :
    Gains before after item.name (if item.isFunctionEnd then 1 else 0) := by
  rcases addItem_cases added with ⟨line, longer, opened, lengthened, rfl⟩
  have adds := Line.add_adds lengthened
  refine ⟨?_, ?_, ?_⟩
  · simp only [allSymbols, opened, Option.map_some, Option.getD_some, Item.names_append]
    simp [symbols, Line.symbols, Item.names_filter, adds.names, String.append_assoc]
  · simp only [allSymbols, opened, Option.map_some, Option.getD_some, Item.ends_append]
    simp [symbols, Line.symbols, Item.ends_filter, adds.ends, Nat.add_assoc]
  · rintro other isLine
    cases isLine
    exact adds.honest (honest line opened)

theorem takeAll_add_gains {grammar : Grammar} {items : List Item} {before after : State}
    (honest : before.HonestLine)
    (added : before.takeAll grammar (items.map .add) = ⟨after, none⟩) :
    Gains before after (Item.names items) (Item.ends items) := by
  induction items generalizing before with
  | nil =>
      cases added
      exact gains_of_samePage (SamePage.refl _) honest
  | cons item rest ih =>
      rcases takeAll_add_cons added with ⟨middle, taken, others⟩
      have former := addItem_gains honest taken
      have latter := former.trans (ih former.honest others)
      refine ⟨?_, ?_, latter.honest⟩
      · rw [latter.names]
        simp [Item.names]
      · rw [latter.ends]
        simp [Item.ends, List.countP_cons, Nat.add_comm]

variable {settings : Settings} {before after : State} {path : Path} {node : Element} {number : Int}

/-- What a terminal without a mark writes holds just the text that it gives to the symbols. -/
theorem Writes.names {items : List Item} (writes : Writes settings before path node items) :
    Item.names items = before.symbolText settings path node ∧ Item.ends items = 0 := by
  cases writes with
  | quoted isString wanted found =>
      have notName := Element.not_isOfKind isString Kind.name (by decide)
      have notDot := Element.not_isOfKind isString Kind.dot (by decide)
      constructor
      · simp [symbolText, notName, notDot, isString, wanted, found, Item.names, Item.name]
      · rfl
  | string isString unwanted present =>
      have notName := Element.not_isOfKind isString Kind.name (by decide)
      have notDot := Element.not_isOfKind isString Kind.dot (by decide)
      constructor
      · rcases unwanted with unwanted | notFound
        · simp [symbolText, notName, notDot, unwanted, Item.names, Item.name]
        · simp [symbolText, notName, notDot, notFound, Item.names, Item.name]
      · rfl
  | keyword isName unmarked reserved present =>
      constructor
      · simp [symbolText, isName, unmarked, reserved, Item.names, Item.name]
      · rfl
  | name isName unmarked free present =>
      constructor
      · simp [symbolText, isName, free, Item.names, Item.name]
      · rfl
  | other notNewline notIndent notString notName unmarked notEnd present =>
      constructor
      · cases isDot : node.isOfKind Kind.dot with
        | true => simp [symbolText, notName, isDot, unmarked isDot, Item.names, Item.name]
        | false => simp [symbolText, notName, isDot, notString, Item.names, Item.name]
      · rfl

theorem symbolText_eq_empty (notName : node.isOfKind Kind.name = false)
    (notDot : node.isOfKind Kind.dot = false) (notString : node.isOfKind Kind.string = false) :
    before.symbolText settings path node = "" := by
  simp [symbolText, notName, notDot, notString]

theorem dedent_gains (honest : before.HonestLine) (went : before.dedent = ⟨after, none⟩) :
    Gains before after "" (if before.indentation - 1 = before.functionLevel then 1 else 0) := by
  rcases dedent_cases went with ⟨ends, added⟩ | ⟨goesOn, rfl⟩
  · have gains := addItem_gains (by exact honest) added
    rw [if_pos ends]
    exact ⟨gains.names, gains.ends, gains.honest⟩
  · rw [if_neg goesOn]
    exact ⟨by simp [allSymbols, symbols], rfl, honest⟩

/-- A terminal adds to the symbols what it is said to give to them. -/
theorem Reads.gains (reads : Reads settings before path node number after)
    (honest : before.HonestLine) :
    Gains before after (before.symbolText settings path node)
      (if before.endsFunction node then 1 else 0) := by
  -- A terminal of a kind that writes nothing gives no text and ends no function.
  have silent {kind : Nat} (isKind : node.isOfKind kind = true)
      (isSilent : kind = Kind.newline ∨ kind = Kind.indent ∨ kind = Kind.endMarker) :
      before.symbolText settings path node = "" ∧ before.endsFunction node = false := by
    have other (right : Nat) (different : kind ≠ right) := Element.not_isOfKind isKind right different
    rcases isSilent with rfl | rfl | rfl <;>
      exact ⟨symbolText_eq_empty (other _ (by decide)) (other _ (by decide)) (other _ (by decide)),
        by simp [endsFunction, other Kind.dedent (by decide)]⟩
  cases reads with
  | dedent isDedent went =>
      have other (right : Nat) (different : Kind.dedent ≠ right) :=
        Element.not_isOfKind isDedent right different
      rw [symbolText_eq_empty (other _ (by decide)) (other _ (by decide)) (other _ (by decide))]
      simpa [endsFunction, isDedent] using dedent_gains honest went
  | newline line opened isNewline turned =>
      rcases silent isNewline (Or.inl rfl) with ⟨noText, noEnd⟩
      rw [noText, noEnd]
      exact gains_of_allSymbols (turnTo_allSymbols honest turned)
  | indent line middle opened isIndent turned went =>
      rcases silent isIndent (Or.inr (Or.inl rfl)) with ⟨noText, noEnd⟩
      have gains := gains_of_allSymbols (turnTo_allSymbols honest turned)
      rw [noText, noEnd, went]
      exact ⟨gains.names, gains.ends, gains.honest⟩
  | finish line middle opened isEnd turned ended =>
      rcases silent isEnd (Or.inr (Or.inr rfl)) with ⟨noText, noEnd⟩
      have gains := gains_of_allSymbols (turnTo_allSymbols honest turned)
      rw [noText, noEnd]
      simpa using gains.trans (gains_of_allSymbols (commit_allSymbols gains.honest ended))
  | marked line middle mark opened canHold held noEnd present turned added =>
      have gains := gains_of_allSymbols (turnTo_allSymbols honest turned)
      have noDedent : before.endsFunction node = false := by
        have notDedent := Element.not_isOfKind_of_canHold canHold Kind.dedent (by decide) (by decide)
        simp [endsFunction, notDedent]
      have text : before.symbolText settings path node = node.wording := by
        rcases canHold with isName | isDot
        · simp [symbolText, isName, held]
        · simp [symbolText, isDot, held,
            Element.not_isOfKind isDot Kind.name (by decide)]
      have isNoEnd : (Item.symbol (some mark) node.wording).isFunctionEnd = false := by
        simp [Item.isFunctionEnd_eq, noEnd]
      have unmarked : Gains middle (middle.dropMark path) "" 0 :=
        gains_of_samePage ⟨rfl, rfl, rfl⟩ gains.honest
      have more := addItem_gains unmarked.honest added
      rw [isNoEnd] at more
      rw [noDedent, text]
      simpa [Item.name] using (gains.trans unmarked).trans more
  | written line middle items opened notDedent writes turned added =>
      have gains := gains_of_allSymbols (turnTo_allSymbols honest turned)
      have more := takeAll_add_gains gains.honest added
      rw [writes.names.1, writes.names.2] at more
      simpa [endsFunction, notDedent] using gains.trans more

theorem Passes.gains (passes : before.Passes settings path node after) (notes : before.OnlyNotes)
    (honest : before.HonestLine) :
    Gains before after (before.symbolText settings path node)
      (if before.endsFunction node then 1 else 0) := by
  cases passes with
  | construct isConstruct visited =>
      have other (number : Nat) (below : number < Kind.firstConstruct) :=
        Element.not_isOfKind_of_isConstruct isConstruct number below
      have same := before.visitConstruct_samePage settings path node
      rw [visited] at same
      rw [symbolText_eq_empty (other _ (by decide)) (other _ (by decide)) (other _ (by decide))]
      simpa [endsFunction, other Kind.dedent (by decide)] using gains_of_samePage same honest
  | terminal number isTerminal numbered visited =>
      exact (visitTerminal_reads notes visited).gains honest

/-- Along a chain of visits the symbols gain what the nodes that are met give to them. -/
theorem Passage.gains {start finish : State} {meetings : List (State × Path × Element)}
    (passage : Passage settings start meetings finish) (notes : start.OnlyNotes)
    (honest : start.HonestLine) :
    Gains start finish
      (String.join (meetings.map fun (state, path, node) => state.symbolText settings path node))
      (meetings.countP fun (state, _, node) => state.endsFunction node) := by
  induction passage with
  | nil state => exact gains_of_samePage (SamePage.refl state) honest
  | cons first others ih =>
      have former := first.gains notes honest
      have latter := former.trans (ih (first.onlyNotes notes) former.honest)
      refine ⟨?_, ?_, latter.honest⟩
      · rw [latter.names]
        simp
      · rw [latter.ends]
        simp [List.countP_cons, Nat.add_comm]

/-- The end of the source closes the line at hand. -/
theorem Passes.line_of_endMarker (passes : before.Passes settings path node after)
    (notes : before.OnlyNotes) (isEnd : node.isOfKind Kind.endMarker = true) : after.line = none := by
  have other (right : Nat) (different : Kind.endMarker ≠ right) :=
    Element.not_isOfKind isEnd right different
  cases passes with
  | construct isConstruct visited =>
      have notEnd := Element.not_isOfKind_of_isConstruct isConstruct Kind.endMarker (by decide)
      simp [notEnd] at isEnd
  | terminal number isTerminal numbered visited =>
      cases visitTerminal_reads notes visited with
      | dedent isDedent went => simp [other Kind.dedent (by decide)] at isDedent
      | newline line opened isNewline turned => simp [other Kind.newline (by decide)] at isNewline
      | indent line middle opened isIndent turned went =>
          simp [other Kind.indent (by decide)] at isIndent
      | finish line middle opened isEnd turned ended =>
          simp only [commit, Element.isPresent] at ended
          cases ended
          rfl
      | marked line middle mark opened canHold held noEnd present turned added =>
          simp [other Kind.name (by decide), other Kind.dot (by decide)] at canHold
      | written line middle items opened notDedent writes turned added =>
          cases writes with
          | quoted isString wanted found => simp [other Kind.string (by decide)] at isString
          | string isString unwanted present => simp [other Kind.string (by decide)] at isString
          | keyword isName unmarked reserved present => simp [other Kind.name (by decide)] at isName
          | name isName unmarked free present => simp [other Kind.name (by decide)] at isName
          | other notNewline notIndent notString notName unmarked notEnd present =>
              simp [notEnd] at isEnd

/-- A chain of visits whose last terminal ends the source leaves no line at hand. -/
theorem Passage.line_eq_none {start finish : State} {meetings : List (State × Path × Element)}
    (passage : Passage settings start meetings finish) (notes : start.OnlyNotes) {last : Element}
    (isLast : ((meetings.map (·.2.2)).filter Element.isTerminal).getLast? = some last)
    (isEnd : last.isOfKind Kind.endMarker = true) : finish.line = none := by
  -- The claim carries along the visits what is known of the last terminal met so far.
  suffices general : ∀ {start finish : State} {meetings : List (State × Path × Element)},
      Passage settings start meetings finish → start.OnlyNotes →
      (match ((meetings.map (·.2.2)).filter Element.isTerminal).getLast? with
        | none => finish.line = start.line
        | some last => last.isOfKind Kind.endMarker = true → finish.line = none) by
    have ended := general passage notes
    rw [isLast] at ended
    exact ended isEnd
  intro start finish meetings passage notes
  induction passage with
  | nil state => rfl
  | @cons before middle after path node remaining first others ih =>
      have tail := ih (first.onlyNotes notes)
      cases sort : node.isTerminal with
      | false =>
          have same : middle.line = before.line := by
            cases first with
            | construct isConstruct visited =>
                have same := before.visitConstruct_samePage settings path node
                rw [visited] at same
                exact same.line
            | terminal number isTerminal numbered visited =>
                simp [Element.isTerminal_iff.mpr isTerminal] at sort
          simpa [sort, same] using tail
      | true =>
          simp only [List.map_cons, List.filter_cons_of_pos sort, List.getLast?_cons]
          cases later : ((remaining.map (·.2.2)).filter Element.isTerminal).getLast? with
          | none =>
              simp only [later] at tail
              simp only [Option.getD_none]
              intro isEnd
              rw [tail]
              exact first.line_of_endMarker notes isEnd
          | some last =>
              simp only [later] at tail
              simpa using tail

end State

namespace Walk

/-- No symbol is lost, duplicated or reordered by a walk that comes to its end in a tree whose last
terminal ends the source.  The walk meets every node of the tree once and in order; the names in the
finished lines, put together, are what the terminals gave to the symbols as they were met; and as
many of the symbols end a function as dedents did. -/
theorem symbols_ofTree (settings : Settings) (tree : Element) (ended : tree.EndsSource)
    (complete : (ofTree settings tree).fault = none) :
    ((ofTree settings tree).meetings tree).map (·.2) = tree.preorder [] ∧
      String.join ((ofTree settings tree).state.symbols.map Item.name) =
        String.join (((ofTree settings tree).meetings tree).map
          fun (state, path, node) => state.symbolText settings path node) ∧
      (ofTree settings tree).state.symbols.countP Item.isFunctionEnd =
        ((ofTree settings tree).meetings tree).countP
          fun (state, _, node) => state.endsFunction node := by
  have passage := passage_ofTree complete
  have nodes := meetings_nodes complete
  have honest : ({} : State).HonestLine := by
    rintro line isLine
    cases isLine
    rfl
  have gains := passage.gains State.onlyNotes_empty honest
  have closed : (ofTree settings tree).state.line = none := by
    rcases ended with ⟨last, isLast, isEnd⟩
    apply passage.line_eq_none State.onlyNotes_empty _ isEnd
    rw [← isLast, Element.terminals, ← nodes]
    simp [Function.comp_def]
  have all : (ofTree settings tree).state.allSymbols = (ofTree settings tree).state.symbols := by
    simp [State.allSymbols, closed]
  have names := gains.names
  have ends := gains.ends
  rw [all] at names ends
  have nothing : ({} : State).allSymbols = [] := rfl
  refine ⟨nodes, ?_, ?_⟩
  · simpa [nothing, Item.names] using names
  · simpa [nothing, Item.ends] using ends

/-- The tree of an import of `a.b` and a function `f` around the string `'q'`. -/
def importAndFunction : Element :=
  .node [.int 257,
    .node [.int 283, .node [.int 1, .text "import", .int 1],
      .node [.int 288, .node [.int 286, .node [.int 289, .node [.int 1, .text "a", .int 1],
        .node [.int 23, .text ".", .int 1], .node [.int 1, .text "b", .int 1]]]]],
    .node [.int 4, .text "", .int 1],
    .node [.int 262, .node [.int 1, .text "def", .int 2], .node [.int 1, .text "f", .int 2],
      .node [.int 5, .text "", .int 3], .node [.int 3, .text "'q'", .int 3],
      .node [.int 6, .text "", .int 4]],
    .node [.int 0, .text "", .int 4]]

theorem symbols_ofTree_importAndFunction :
    importAndFunction.EndsSource ∧
      (ofTree { stringSymbols := true } importAndFunction).fault = none ∧
      String.join ((ofTree { stringSymbols := true } importAndFunction).state.symbols.map Item.name) =
        "a.bfq" ∧
      (ofTree { stringSymbols := true } importAndFunction).state.symbols.countP Item.isFunctionEnd =
        1 := by
  have ended : importAndFunction.EndsSource :=
    ⟨.node [.int 0, .text "", .int 4], rfl, rfl⟩
  have complete : (ofTree { stringSymbols := true } importAndFunction).fault = none := by
    rw [ofTree_eq_visitEach]
    decide +kernel
  rcases symbols_ofTree _ _ ended complete with ⟨_, names, ends⟩
  refine ⟨ended, complete, names.trans ?_, ends.trans ?_⟩
  · rw [ofTree_eq_visitEach]
    decide +kernel
  · rw [ofTree_eq_visitEach]
    decide +kernel

end Walk

end CrossRef
