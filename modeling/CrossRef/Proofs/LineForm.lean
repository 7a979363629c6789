import CrossRef.Line
import Mathlib.Data.List.Chain

/-!
# The form of a line

Adding an item to a line puts it behind the last item, sets it off by a space, or merges the two.
From these three cases follow what holds of every line that is built by additions: symbols and plain
text alternate, the line knows whether it holds a symbol, and what was added can still be read off,
since a merge puts names together in order and never touches the end of a function.
-/

namespace CrossRef

namespace Item

/-- The name of a symbol. -/
def name : Item → String
  | .symbol _ name => name
  | .plain _ => ""

@[simp]
theorem isSymbol_symbol (mark : Option Mark) (text : String) : (symbol mark text).isSymbol = true :=
  rfl

@[simp]
theorem isSymbol_plain (text : String) : (plain text).isSymbol = false :=
  rfl

/-- The mark of a symbol. -/
def mark? : Item → Option Mark
  | .symbol mark _ => mark
  | .plain _ => none

@[simp]
theorem mark?_symbol (mark : Option Mark) (text : String) : (symbol mark text).mark? = mark :=
  rfl

@[simp]
theorem mark?_plain (text : String) : (plain text).mark? = none :=
  rfl

theorem isFunctionEnd_eq (item : Item) :
    item.isFunctionEnd = decide (item.mark? = some .functionEnd) := by
  cases item with
  | plain text => rfl
  | symbol mark name =>
      rcases mark with _ | mark
      · rfl
      · cases mark <;> rfl

theorem isSymbol_of_isFunctionEnd {item : Item} (ends : item.isFunctionEnd = true) :
    item.isSymbol = true := by
  cases item with
  | symbol mark name => rfl
  | plain text => simp [isFunctionEnd] at ends

/-- Two items and the one that they are merged into. -/
inductive Merges : Item → Item → Item → Prop where
  | symbols (mark : Option Mark) (name more : String) :
      Merges (.symbol mark name) (.symbol mark more) (.symbol mark (name ++ more))
  | texts (text more : String) : Merges (.plain text) (.plain more) (.plain (text ++ " " ++ more))

theorem merge_merges {first second merged : Item} (joined : first.merge second = .ok merged) :
    Merges first second merged := by
  unfold merge at joined
  split at joined
  next mark name next more =>
    split at joined
    next same =>
      cases joined
      subst same
      exact .symbols mark name more
    next => cases joined
  next => cases joined
  next text more =>
    cases joined
    exact .texts text more
  next => cases joined

/-- Merged items keep the sort of the first and lose nothing of either name. -/
theorem merge_name {first second merged : Item} (joined : first.merge second = .ok merged) :
    merged.isSymbol = first.isSymbol ∧ merged.isFunctionEnd = first.isFunctionEnd ∧
      merged.name = first.name ++ second.name := by
  cases merge_merges joined with
  | symbols mark name more =>
      refine ⟨rfl, ?_, rfl⟩
      rw [isFunctionEnd_eq, isFunctionEnd_eq]
      rfl
  | texts text more => exact ⟨rfl, rfl, rfl⟩

/-- Items are merged only if they agree in their marks. -/
theorem merge_mark {first second merged : Item} (joined : first.merge second = .ok merged) :
    first.mark? = second.mark? ∧ merged.mark? = second.mark? := by
  cases merge_merges joined with
  | symbols mark name more => exact ⟨rfl, rfl⟩
  | texts text more => exact ⟨rfl, rfl⟩

/-- Neighbours are of different sorts. -/
def Alternate (items : List Item) : Prop :=
  items.IsChain fun first second => first.isSymbol ≠ second.isSymbol

/-- The names of the symbols among some items, put together. -/
def names (items : List Item) : String :=
  String.join (items.map name)

/-- The number of ends of functions among some items. -/
def ends (items : List Item) : Nat :=
  items.countP isFunctionEnd

theorem names_append (first second : List Item) :
    names (first ++ second) = names first ++ names second := by
  simp [names]

theorem ends_append (first second : List Item) :
    ends (first ++ second) = ends first + ends second := by
  simp [ends]

/-- A text put together from what is read off each item needs only the symbols, if plain text gives
nothing to it. -/
theorem join_filter {read : Item → String} (silent : ∀ text, read (.plain text) = "")
    (items : List Item) :
    String.join ((items.filter isSymbol).map read) = String.join (items.map read) := by
  induction items with
  | nil => rfl
  | cons item rest ih =>
      cases item with
      | symbol mark text =>
          rw [List.filter_cons_of_pos (isSymbol_symbol mark text)]
          simp [ih]
      | plain text => simp [silent, ih]

theorem names_filter (items : List Item) : names (items.filter isSymbol) = names items :=
  join_filter (fun _ => rfl) items

theorem ends_filter (items : List Item) : ends (items.filter isSymbol) = ends items := by
  unfold ends
  rw [List.countP_filter]
  apply List.countP_congr
  intro item _
  constructor
  · intro both
    simp only [Bool.and_eq_true] at both
    exact both.1
  · intro isEnd
    simp [isEnd, isSymbol_of_isFunctionEnd isEnd]

end Item

namespace Line

/-- The three ways in which an item can be added to a line. -/
inductive Adds (line : Line) (item : Item) : Line → Prop where
  | pushed (differs : ∀ last, line.items.getLast? = some last → last.isSymbol ≠ item.isSymbol) :
      Adds line item (line.push item)
  | separated {last : Item} (follows : line.items.getLast? = some last)
      (isSymbol : last.isSymbol = true) (ends : item.isFunctionEnd = true) :
      Adds line item ((line.push separator).push item)
  | merged {front : List Item} {last joined : Item} (split : line.items = front ++ [last])
      (noEnd : item.isFunctionEnd = false) (sameSort : last.isSymbol = item.isSymbol)
      (merges : last.merge item = .ok joined) :
      Adds line item { line with items := front ++ [joined] }

theorem add_adds {line longer : Line} {item : Item} (added : line.add item = .ok longer) :
    line.Adds item longer := by
  unfold add at added
  split at added
  next empty =>
    cases added
    apply Adds.pushed
    simp [empty]
  next last follows =>
    split at added
    next ends =>
      split at added
      next isSymbol =>
        cases added
        exact .separated follows isSymbol ends
      next isPlain =>
        cases added
        apply Adds.pushed
        intro other isLast
        rw [follows] at isLast
        cases isLast
        simp [isPlain, Item.isSymbol_of_isFunctionEnd ends]
    next noEnd =>
      split at added
      next sameSort =>
        split at added
        next joined merges =>
          cases added
          have split : line.items = line.items.dropLast ++ [last] := by
            have nonempty : line.items ≠ [] := by
              intro empty
              simp [empty] at follows
            rw [List.getLast?_eq_some_getLast nonempty] at follows
            cases follows
            exact (List.dropLast_append_getLast nonempty).symm
          exact .merged split (by simpa using noEnd) sameSort merges
        next => cases added
      next differs =>
        cases added
        apply Adds.pushed
        intro other isLast
        rw [follows] at isLast
        cases isLast
        exact differs

variable {line longer : Line} {item : Item}

/-- The number of a line never changes. -/
theorem Adds.number (adds : line.Adds item longer) : longer.number = line.number := by
  cases adds <;> rfl

/-- The item at the end of a line has the mark of the item that was added last. -/
theorem Adds.mark (adds : line.Adds item longer) :
    longer.items.getLast?.bind Item.mark? = item.mark? := by
  cases adds with
  | pushed differs => simp
  | separated follows isSymbol ends => simp
  | merged split noEnd sameSort merges => simp [(Item.merge_mark merges).2]

/-- What is read off the items of a line grows by what is read off the item that is added, if plain
text gives nothing to it and a merger puts both readings together. -/
theorem Adds.join {read : Item → String} (adds : line.Adds item longer)
    (silent : ∀ text, read (.plain text) = "")
    (merged : ∀ {first second joined : Item}, first.merge second = .ok joined →
      read joined = read first ++ read second) :
    String.join (longer.items.map read) = String.join (line.items.map read) ++ read item := by
  cases adds with
  | pushed differs => simp
  | separated follows isSymbol ends => simp [separator, silent]
  | merged split noEnd sameSort merges => simp [split, merged merges, String.append_assoc]

/-- An addition loses no name and keeps the names in order. -/
theorem Adds.names (adds : line.Adds item longer) :
    Item.names longer.items = Item.names line.items ++ item.name :=
  adds.join (fun _ => rfl) fun merges => (Item.merge_name merges).2.2

/-- An addition keeps the ends of functions apart. -/
theorem Adds.ends (adds : line.Adds item longer) :
    Item.ends longer.items = Item.ends line.items + if item.isFunctionEnd then 1 else 0 := by
  cases adds with
  | pushed differs => simp [Item.ends, List.countP_cons]
  | separated follows isSymbol ends =>
      simp [Item.ends, separator, Item.isFunctionEnd, List.countP_cons]
  | merged split noEnd sameSort merges =>
      simp [split, Item.ends, List.countP_cons, (Item.merge_name merges).2.1, noEnd]

/-- A line holds a symbol behind an addition if it held one before or the item is one. -/
theorem Adds.any_isSymbol (adds : line.Adds item longer) :
    longer.items.any Item.isSymbol = (line.items.any Item.isSymbol || item.isSymbol) := by
  cases adds with
  | pushed differs => simp
  | separated follows isSymbol ends => simp [separator]
  | merged split noEnd sameSort merges =>
      simp [split, (Item.merge_name merges).1, sameSort]

/-- Whether a line's flag tells if it holds a symbol. -/
def Honest (line : Line) : Prop :=
  line.hasSymbol = line.items.any Item.isSymbol

theorem Adds.honest (adds : line.Adds item longer) (honest : line.Honest) : longer.Honest := by
  unfold Honest at honest ⊢
  cases adds with
  | pushed differs => simp [honest]
  | separated follows isSymbol ends =>
      simp [honest, separator]
  | merged split noEnd sameSort merges =>
      simp [honest, split, (Item.merge_name merges).1]

/-- Symbols and plain text go on alternating. -/
theorem Adds.alternate (adds : line.Adds item longer) (alternate : Item.Alternate line.items) :
    Item.Alternate longer.items := by
  unfold Item.Alternate at alternate ⊢
  cases adds with
  | pushed differs =>
      simp only [push, List.isChain_append, List.isChain_singleton, List.head?_cons]
      refine ⟨alternate, trivial, ?_⟩
      intro last isLast next isNext
      cases isNext
      exact differs last isLast
  | @separated last follows isSymbol ends =>
      simp only [push, List.append_assoc, List.isChain_append]
      refine ⟨alternate, ?_, ?_⟩
      · simp [separator, Item.isSymbol_of_isFunctionEnd ends]
      · intro other isLast next isNext
        rw [follows] at isLast
        cases isLast
        cases isNext
        simp [isSymbol, separator]
  | merged split noEnd sameSort merges =>
      rw [split, List.isChain_append] at alternate
      simp only [List.isChain_append, List.isChain_singleton, List.head?_cons]
      refine ⟨alternate.1, trivial, ?_⟩
      intro other isLast next isNext
      cases isNext
      rw [(Item.merge_name merges).1]
      exact alternate.2.2 other isLast _ rfl

/-- The symbols of a line. -/
def symbols (line : Line) : List Item :=
  line.items.filter Item.isSymbol

/-- A line without a symbol has none to lose. -/
theorem symbols_of_not_hasSymbol (honest : line.Honest) (none : line.hasSymbol = false) :
    line.symbols = [] := by
  rw [honest] at none
  simpa [symbols] using none

/-! ## Rows of a line -/

theorem toList_toString (number : Nat) : (toString number).toList = Nat.toDigits 10 number :=
  Nat.toList_repr

theorem isDigit_of_mem {number : Nat} {char : Char} (member : char ∈ Nat.toDigits 10 number) :
    char.isDigit = true :=
  Nat.isDigit_of_mem_toDigits (by omega) (by omega) member

/-- A number starts with a digit. -/
theorem exists_digit (number : Nat) :
    ∃ digit rest, (toString number).toList = digit :: rest ∧ digit.isDigit = true := by
  rcases List.exists_cons_of_ne_nil Nat.toDigits_ne_nil with ⟨digit, rest, digits⟩
  refine ⟨digit, rest, (toList_toString number).trans digits, ?_⟩
  apply isDigit_of_mem
  rw [digits]
  exact List.mem_cons_self

/-- A row gets at most a space behind it. -/
theorem closeRow_eq (text : String) (following : List Item) :
    closeRow text following = text ∨ closeRow text following = text ++ " " := by
  unfold closeRow
  split
  · split
    · exact Or.inl rfl
    · exact Or.inr rfl
  · exact Or.inl rfl

/-- Plain text at the start of a line stands behind the number. -/
theorem exists_rows_plain (number : Nat) (text : String) (following : List Item) :
    ∃ space, '\n' ∉ space.toList ∧
      rows number (.plain text :: following) =
        (toString number ++ (" " ++ text ++ space)) :: laterRows following := by
  rcases closeRow_eq (toString number ++ " " ++ text) following with closed | closed
  · refine ⟨"", by decide, ?_⟩
    rw [rows, closed]
    simp [String.append_assoc]
  · refine ⟨" ", by decide, ?_⟩
    rw [rows, closed]
    simp [String.append_assoc]

end Line

end CrossRef
