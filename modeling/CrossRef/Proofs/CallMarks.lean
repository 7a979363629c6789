import CrossRef.Proofs.WrittenMarks

/-!
# Calls mark what they call

A primary calls the name that it starts with if parentheses come next, and every attribute that
parentheses follow; a decorated function calls the last part of the name of each of its decorators,
unless that is a plain decorator.  In a walk that comes to its end these names, and no others, are
written with the mark of a call, however deep the calls lie in each other.
-/

namespace CrossRef

namespace Element

/-! ## What is called -/

/-- Whether an atom starts with a name. -/
def isNamed (grammar : Grammar) (atom : Element) : Bool :=
  atom.isOfKind grammar.atom && atom.elements[1]?.any (·.isOfKind Kind.name)

/-- Whether a trailer names an attribute. -/
def isMember (grammar : Grammar) (trailer : Element) : Bool :=
  trailer.isOfKind grammar.trailer && trailer.elements[1]?.any (·.isOfKind Kind.dot) &&
    trailer.elements[2]?.any (·.isOfKind Kind.name)

/-- Whether a trailer begins and ends with parentheses. -/
def isArguments (grammar : Grammar) (trailer : Element) : Bool :=
  trailer.isOfKind grammar.trailer && trailer.elements[1]?.any (·.isOfKind Kind.leftParenthesis) &&
    trailer.elements.getLast?.any (·.isOfKind Kind.rightParenthesis)

/-- The ways from a decorator to the name that it calls: the last part of a dotted name, unless it is the
only one and makes a property or a method of the class. -/
inductive DecoratorCalls (grammar : Grammar) (node : Element) : Path → Prop where
  | lastPart {dotted name : Element} {last : Nat} (isDecorator : node.isOfKind grammar.decorator = true)
      (isDotted : node.elements[2]? = some dotted)
      (dottedKind : dotted.isOfKind grammar.dottedName = true)
      (isLast : dotted.elements.length = last + 2) (isName : dotted.elements[last + 1]? = some name)
      (notPlain : last = 0 → name.wording ∉ ["property", "classmethod"]) :
      DecoratorCalls grammar node [2, last + 1]

/-- The ways from a node to the names that it calls. -/
inductive Calls (grammar : Grammar) (node : Element) : Path → Prop where
  | name (isPrimary : node.isOfKind grammar.power = true)
      (named : node.elements[1]?.any (·.isNamed grammar) = true)
      (called : node.elements[2]?.any (·.isArguments grammar) = true) : Calls grammar node [1, 1]
  | member (position : Nat) (isPrimary : node.isOfKind grammar.power = true)
      (named : node.elements[position]?.any (·.isMember grammar) = true)
      (called : node.elements[position + 1]?.any (·.isArguments grammar) = true) :
      Calls grammar node [position, 2]
  | decorator {list child : Element} {index : Nat} {way : Path}
      (isDecorated : node.isOfKind grammar.decorated = true)
      (isList : node.elements[1]? = some list) (listKind : list.isOfKind grammar.decorators = true)
      (isFunction : node.elements[2]?.any (·.isOfKind grammar.functionDefinition) = true)
      (isChild : list.elements[index + 1]? = some child)
      (called : child.DecoratorCalls grammar way) : Calls grammar node (1 :: (index + 1) :: way)

/-! ## Questions and the elements that they are about -/

theorem entry_of_last {node child : Element} {last : Nat} (isLast : node.elements.length = last + 1)
    (isChild : node.elements[last]? = some child) :
    place? node.elements.length (-1) = some last ∧ node.entry (-1) = .ok child := by
  have isPlace : place? node.elements.length (-1) = some last := by
    rw [isLast]
    exact Tree.place_from_end Nat.one_pos (Nat.le_add_left 1 last)
  exact ⟨isPlace, entry_of_place isPlace isChild⟩

variable {grammar : Grammar} {node : Element}

/-- A question about a part of a child is a question about the child. -/
theorem kindIs_cons_iff (position : Nat) (route : List Int) (number : Nat) :
    node.kindIs (position :: route) number = .ok true ↔
      ∃ child, node.elements[position]? = some child ∧ child.kindIs route number = .ok true := by
  constructor
  · intro holds
    rcases exists_element holds with ⟨place, child, isPlace, isChild, found, _⟩
    rw [place_forward position isPlace] at isChild
    rw [kindIs_of_entry found] at holds
    exact ⟨child, isChild, holds⟩
  · rintro ⟨child, isChild, holds⟩
    rwa [kindIs_of_entry (entry_of_getElem? position isChild)]

@[simp]
theorem kindIs_child_iff (position number : Nat) :
    node.kindIs [position] number = .ok true ↔
      node.elements[position]?.any (·.isOfKind number) = true := by
  simp [kindIs_cons_iff, Option.any_eq_true]

@[simp]
theorem kindIs_first_iff (number : Nat) :
    node.kindIs [1] number = .ok true ↔ node.elements[1]?.any (·.isOfKind number) = true :=
  kindIs_child_iff 1 number

@[simp]
theorem kindIs_second_iff (number : Nat) :
    node.kindIs [2] number = .ok true ↔ node.elements[2]?.any (·.isOfKind number) = true :=
  kindIs_child_iff 2 number

@[simp]
theorem kindIs_last_iff (number : Nat) :
    node.kindIs [-1] number = .ok true ↔
      node.elements.getLast?.any (·.isOfKind number) = true := by
  rw [Option.any_eq_true, List.getLast?_eq_getElem?]
  constructor
  · intro isKind
    rcases exists_element isKind with ⟨place, child, isPlace, isChild, _, kind⟩
    have fromEnd := place_eq isPlace
    rw [if_pos (by decide)] at fromEnd
    have isLast : place = node.elements.length - 1 := by omega
    exact ⟨child, isLast ▸ isChild, kindIs_nil_eq_true.mp kind⟩
  · rintro ⟨child, isChild, kind⟩
    have inside := (List.getElem?_eq_some_iff.mp isChild).1
    have found := (entry_of_last (by omega) isChild).2
    rwa [kindIs_of_entry found, kindIs_nil_eq_true]

theorem asks_of_entry {child : Element} {position : Int} (isChild : node.entry position = .ok child)
    (route : List Int) (question : Element → Bool) :
    node.asks (position :: route) question = child.asks route question := by
  simp only [asks, follow, isChild]

/-- A question about the text of a terminal. -/
theorem asks_isText_iff {texts : List String} (noEmpty : "" ∉ texts) {answer : Bool}
    (asked : (node.asks [1] fun text => texts.any (text.isText ·)) = .ok answer) :
    answer = true ↔ node.wording ∈ texts := by
  cases found : node.entry 1 with
  | error fault => simp [asks, follow, found] at asked
  | ok text =>
      simp only [asks, follow, found, Except.ok.injEq] at asked
      rw [← asked, wording, found]
      cases text with
      | text value => simp [isText]
      | _ => simp [isText, noEmpty]

/-- What counts as a number is no node. -/
theorem not_isOfKind_of_isNumber {element : Element} {number : Nat}
    (isNumber : element.isNumber number = true) (kind : Nat) : element.isOfKind kind = false := by
  cases element with
  | null | bool | int | float => rfl
  | text | node | list => cases isNumber

/-- The kind of a node is no part of it. -/
theorem kindIs_zero {number kind : Nat} (isKind : node.isOfKind number = true) :
    node.kindIs [0] kind ≠ .ok true := by
  intro isPart
  rcases exists_kind isKind with ⟨found, hasKind, isNumber⟩
  rw [kindIs_of_entry hasKind, kindIs_nil_eq_true, not_isOfKind_of_isNumber isNumber] at isPart
  cases isPart

theorem mem_numbered_of_element {child : Element} {start position : Nat} (reached : start ≤ position)
    (isChild : node.elements[position]? = some child) : (position, child) ∈ node.numbered start := by
  simp only [numbered, List.mem_map, Prod.mk.injEq, Prod.exists]
  refine ⟨child, position, List.mem_iff_getElem?.mpr ⟨position - start, ?_⟩, rfl, rfl⟩
  rw [List.getElem?_drop, List.getElem?_zipIdx]
  simp [Nat.add_sub_cancel' reached, isChild]

theorem any_isNamed_iff (position : Nat) :
    node.elements[position]?.any (·.isNamed grammar) = true ↔
      node.kindIs [position] grammar.atom = .ok true ∧ node.kindIs [position, 1] Kind.name = .ok true := by
  cases found : node.elements[position]? <;> simp [kindIs_cons_iff, found, isNamed]

theorem any_isMember_iff (position : Nat) :
    node.elements[position]?.any (·.isMember grammar) = true ↔
      node.kindIs [position] grammar.trailer = .ok true ∧
        node.kindIs [position, 1] Kind.dot = .ok true ∧
        node.kindIs [position, 2] Kind.name = .ok true := by
  cases found : node.elements[position]? <;> simp [kindIs_cons_iff, found, isMember, and_assoc]

theorem any_isArguments_iff (position : Nat) :
    node.elements[position]?.any (·.isArguments grammar) = true ↔
      node.kindIs [position] grammar.trailer = .ok true ∧
        node.kindIs [position, 1] Kind.leftParenthesis = .ok true ∧
        node.kindIs [position, -1] Kind.rightParenthesis = .ok true := by
  cases found : node.elements[position]? <;> simp [kindIs_cons_iff, found, isArguments, and_assoc]

end Element

/-! ## Calls of a primary -/

section

variable {grammar : Grammar} {node : Element}

theorem isNamedCall_iff :
    isNamedCall grammar node node.elements.length = .ok true ↔
      node.isOfKind grammar.power = true ∧ node.elements[1]?.any (·.isNamed grammar) = true ∧
        node.elements[2]?.any (·.isArguments grammar) = true := by
  rw [← Element.kindIs_nil_eq_true, Element.any_isNamed_iff, Element.any_isArguments_iff]
  unfold isNamedCall
  constructor
  · intro isCall
    split at isCall
    next => cases isCall
    next => cases isCall
    next isPrimary =>
      split at isCall
      next => cases isCall
      next =>
        have holds := Verdict.all_eq_true.mp isCall
        simp only [List.forall_mem_cons] at holds
        rcases holds with ⟨isAtom, isName, isTrailer, opens, closes, _⟩
        exact ⟨isPrimary, ⟨isAtom, isName⟩, isTrailer, opens, closes⟩
  · rintro ⟨isPrimary, ⟨isAtom, isName⟩, isTrailer, opens, closes⟩
    have long : ¬ (node.elements.length : Int) < 3 := by
      rcases Element.exists_element isTrailer with ⟨place, _, isPlace, isChild, _⟩
      have inside := (List.getElem?_eq_some_iff.mp isChild).1
      rw [Element.place_forward 2 isPlace] at inside
      omega
    simp only [isPrimary, if_neg long, Verdict.all_eq_true, List.forall_mem_cons]
    exact ⟨isAtom, isName, isTrailer, opens, closes, List.forall_mem_nil _⟩

theorem isAttributeCall_iff (position : Nat) :
    isAttributeCall grammar node position node.elements.length = .ok true ↔
      node.isOfKind grammar.power = true ∧ node.elements[position]?.any (·.isMember grammar) = true ∧
        node.elements[position + 1]?.any (·.isArguments grammar) = true := by
  rw [← Element.kindIs_nil_eq_true, Element.any_isMember_iff, Element.any_isArguments_iff]
  unfold isAttributeCall
  constructor
  · intro isCall
    split at isCall
    next => cases isCall
    next => cases isCall
    next isPrimary =>
      split at isCall
      next =>
        have holds := Verdict.all_eq_true.mp isCall
        simp only [List.forall_mem_cons] at holds
        rcases holds with ⟨isTrailer, isDot, isName, isNext, opens, closes, _⟩
        exact ⟨isPrimary, ⟨isTrailer, isDot, isName⟩, isNext, opens, closes⟩
      next => cases isCall
  · rintro ⟨isPrimary, ⟨isTrailer, isDot, isName⟩, isNext, opens, closes⟩
    have before : (position : Int) < node.elements.length - 1 := by
      rcases Element.exists_element isNext with ⟨place, _, isPlace, isChild, _⟩
      have inside := (List.getElem?_eq_some_iff.mp isChild).1
      have isBehind := Element.place_forward (position + 1) isPlace
      omega
    simp only [isPrimary, if_pos before, Verdict.all_eq_true, List.forall_mem_cons]
    exact ⟨isTrailer, isDot, isName, isNext, opens, closes, List.forall_mem_nil _⟩

end

namespace Plan

variable {grammar : Grammar} {path place : Path} {node : Element}

/-! ## What plans note -/

theorem sound_of_subset {part plan : Plan} (sound : plan.any Step.isDoomed = false)
    (within : part ⊆ plan) : part.any Step.isDoomed = false := by
  rw [List.any_eq_false] at sound ⊢
  exact fun step member => sound step (within member)

theorem branch_cases {verdict : Verdict} {yes no : Plan}
    (sound : (branch verdict yes no).any Step.isDoomed = false) :
    verdict = .ok true ∧ branch verdict yes no = yes ∨
      verdict = .ok false ∧ branch verdict yes no = no := by
  rcases verdict with fault | _ | _
  · cases sound
  · exact Or.inr ⟨rfl, rfl⟩
  · exact Or.inl ⟨rfl, rfl⟩

theorem demand_met {verdict : Verdict} (sound : (Step.demand verdict).isDoomed = false) :
    verdict = .ok true := by
  rcases verdict with fault | _ | _
  · cases sound
  · cases sound
  · rfl

theorem markAt_last {name : Element} {last : Nat} (isLast : node.elements.length = last + 1)
    (isName : node.elements[last]? = some name) (mark : Mark) :
    markAt path node [-1] mark = [.mark (path ++ [last]) name mark] := by
  rcases Element.entry_of_last isLast isName with ⟨isPlace, found⟩
  rw [markAt, Element.locate_of_entry found isPlace, Element.locate]

theorem markAt_terminal {position later kind number : Nat}
    (isPart : node.kindIs [position] kind = .ok true)
    (isTerminal : node.kindIs [position, later] number = .ok true) (path : Path) (mark : Mark) :
    ∃ terminal, markAt path node [position, later] mark =
      [.mark (path ++ [position, later]) terminal mark] := by
  rcases Element.locate_terminal isPart isTerminal with ⟨place, terminal, isPlace, located⟩
  refine ⟨terminal, ?_⟩
  rw [markAt, located, Element.place_forward position isPlace]

/-- The calls of a primary are noted for the names that it calls. -/
theorem calls_notes_iff (sound : (calls grammar path node).any Step.isDoomed = false) :
    (∃ terminal, .mark place terminal .call ∈ calls grammar path node) ↔
      ∃ way, place = path ++ way ∧ CalledAt grammar node way := by
  constructor
  · rintro ⟨terminal, isStep⟩
    exact calls_marks.within place (mem_markPlaces sound isStep)
  · rintro ⟨way, rfl, called⟩
    cases called with
    | name isCall =>
        rcases isNamedCall_parts isCall with ⟨_, isAtom, isName, _⟩
        rcases markAt_terminal isAtom isName path .call with ⟨terminal, isMark⟩
        refine ⟨terminal, List.mem_append_left _ ?_⟩
        rw [isCall]
        exact isMark ▸ List.mem_singleton_self _
    | member position isCall =>
        rcases isAttributeCall_parts isCall with ⟨before, isTrailer, isName, _⟩
        rcases markAt_terminal isTrailer isName path .call with ⟨terminal, isMark⟩
        -- The positions that are asked about start behind the kind.
        have positive : position ≠ 0 := by
          rintro rfl
          exact Element.kindIs_zero ((isAttributeCall_iff 0).mp isCall).1 isTrailer
        refine ⟨terminal, List.mem_append_right _ (List.mem_flatMap.mpr ⟨position, ?_, ?_⟩)⟩
        · rw [List.mem_range'_1]
          omega
        · rw [isCall]
          exact isMark ▸ List.mem_singleton_self _

/-! ## Decorators -/

theorem mem_decoratorName_iff {dotted name terminal : Element} {last : Nat}
    (isLast : dotted.elements.length = last + 2) (isName : dotted.elements[last + 1]? = some name)
    (sound : (decoratorName path dotted).any Step.isDoomed = false) :
    .mark place terminal .call ∈ decoratorName path dotted ↔
      (place = path ++ [last + 1] ∧ terminal = name) ∧ (last = 0 → name.wording ∉ plainDecorators) := by
  have hasLength : dotted.length = .ok (last + 2) := by
    cases dotted with
    | node elements | list elements => exact congrArg Except.ok isLast
    | _ => simp [Element.elements] at isLast
  have called : markAt path dotted [-1] .call = [.mark (path ++ [last + 1]) name .call] :=
    markAt_last isLast isName .call
  have asked (question : Element → Bool) :
      dotted.asks [-1, 1] question = name.asks [1] question :=
    Element.asks_of_entry (Element.entry_of_last isLast isName).2 [1] question
  have noEmpty : "" ∉ plainDecorators := by decide
  have long : ¬ last + 2 < 2 := by omega
  simp only [decoratorName, hasLength, if_neg long, called, asked] at sound ⊢
  by_cases single : last = 0
  · have isShort : ¬ 2 < last + 2 := by omega
    simp only [if_neg isShort, List.any_cons, Bool.or_eq_false_iff] at sound ⊢
    rcases branch_cases sound.2 with ⟨isPlain, isPlan⟩ | ⟨notPlain, isPlan⟩
    · have plain := (Element.asks_isText_iff noEmpty isPlain).mp rfl
      rw [isPlan]
      simp [single, plain]
    · have other : name.wording ∉ plainDecorators := by
        intro plain
        cases (Element.asks_isText_iff noEmpty notPlain).mpr plain
      rw [isPlan]
      simp [other]
  · have isLong : 2 < last + 2 := by omega
    rw [if_pos isLong]
    simp [single]

/-- A decorator whose plan can be carried out has a name, which has a last part. -/
theorem exists_lastPart {dotted : Element} {kind : Nat} (isKind : dotted.isOfKind kind = true)
    (sound : (decoratorName path dotted).any Step.isDoomed = false) :
    ∃ last name, dotted.elements.length = last + 2 ∧ dotted.elements[last + 1]? = some name := by
  have hasLength : dotted.length = .ok dotted.elements.length := by
    cases dotted with
    | node elements | list elements => rfl
    | text value =>
        rw [Element.isOfKind_text] at isKind
        cases isKind
    | null | bool | int | float => cases isKind
  simp only [decoratorName, hasLength] at sound
  split at sound
  next => cases sound
  next long =>
    rcases Nat.exists_eq_add_of_le' (Nat.le_of_not_lt long) with ⟨last, isLast⟩
    exact ⟨last, _, isLast, List.getElem?_eq_getElem (by omega)⟩

/-- A decorator notes a call for the name that it calls. -/
theorem decorator_notes_iff (sound : (decorator grammar path node).any Step.isDoomed = false) :
    (∃ terminal, .mark place terminal .call ∈ decorator grammar path node) ↔
      ∃ way, place = path ++ way ∧ node.DecoratorCalls grammar way := by
  constructor
  · rintro ⟨terminal, isStep⟩
    simp only [decorator, List.any_append, List.any_cons, Bool.or_eq_false_iff] at sound
    have isDecorator := Element.kindIs_nil_eq_true.mp (demand_met sound.1.1)
    have isDotted := demand_met sound.1.2.2.1
    rcases Element.exists_element isDotted with ⟨position, dotted, isPlace, isElement, found, isKind⟩
    rw [Element.place_forward 2 isPlace] at isElement
    rw [found] at sound
    simp only [decorator, found, List.mem_append, List.mem_cons, List.not_mem_nil, reduceCtorEq,
      or_false, false_or] at isStep
    rcases exists_lastPart (Element.kindIs_nil_eq_true.mp isKind) sound.2 with
      ⟨last, name, isLast, isName⟩
    rcases (mem_decoratorName_iff isLast isName sound.2).mp isStep with ⟨⟨rfl, _⟩, notPlain⟩
    exact ⟨[2, last + 1], by simp,
      .lastPart isDecorator isElement (Element.kindIs_nil_eq_true.mp isKind) isLast isName notPlain⟩
  · rintro ⟨way, rfl, called⟩
    cases called with
    | @lastPart dotted name last isDecorator isDotted dottedKind isLast isName notPlain =>
        have found : node.entry 2 = .ok dotted := Element.entry_of_getElem? 2 isDotted
        have isPlan : decoratorName (path ++ [2]) dotted ⊆ decorator grammar path node := by
          intro step member
          apply List.mem_append_right
          simp only [found]
          exact member
        refine ⟨name, isPlan ((mem_decoratorName_iff isLast isName (sound_of_subset sound isPlan)).mpr ?_)⟩
        exact ⟨⟨by simp, rfl⟩, notPlain⟩

/-- The names that a decorated function calls are those that its decorators call. -/
theorem decorated_notes_iff (isDecorated : node.isOfKind grammar.decorated = true)
    (notPrimary : node.isOfKind grammar.power = false)
    (sound : (decorated grammar path node).any Step.isDoomed = false) :
    (∃ terminal, .mark place terminal .call ∈ decorated grammar path node) ↔
      ∃ way, place = path ++ way ∧ node.Calls grammar way := by
  constructor
  · rintro ⟨terminal, isStep⟩
    rcases branch_cases sound with ⟨holds, isPlan⟩ | ⟨_, isPlan⟩
    · rw [Verdict.all_eq_true] at holds
      simp only [List.forall_mem_cons] at holds
      rcases Element.exists_element holds.1 with ⟨position, list, isPlace, isList, found, listKind⟩
      rw [Element.place_forward 1 isPlace] at isList
      have isFunction := (Element.kindIs_child_iff 2 _).mp holds.2.1
      rw [decorated, isPlan, found] at isStep sound
      rcases List.mem_flatMap.mp isStep with ⟨⟨position, child⟩, member, inPlan⟩
      have within : decorator grammar (path ++ [1, position]) child ⊆
          (list.numbered 1).flatMap fun entry => decorator grammar (path ++ [1, entry.1]) entry.2 :=
        fun step isMember => List.mem_flatMap.mpr ⟨_, member, isMember⟩
      rcases (decorator_notes_iff (sound_of_subset sound within)).mp ⟨terminal, inPlan⟩ with
        ⟨way, rfl, called⟩
      rcases Element.mem_numbered member with ⟨behindKind, isChild⟩
      rcases Nat.exists_eq_add_of_le' behindKind with ⟨index, rfl⟩
      exact ⟨_, by simp, .decorator isDecorated isList (Element.kindIs_nil_eq_true.mp listKind) isFunction
        isChild called⟩
    · rw [decorated, isPlan] at isStep
      cases isStep
  · rintro ⟨way, rfl, calls⟩
    cases calls with
    | name isPrimary | member _ isPrimary =>
        rw [notPrimary] at isPrimary
        cases isPrimary
    | @decorator list child index way _ isList listKind isFunction isChild called =>
        have found : node.entry 1 = .ok list := Element.entry_of_getElem? 1 isList
        have holds : Verdict.all [node.kindIs [1] grammar.decorators,
            node.kindIs [2] grammar.functionDefinition] = .ok true := by
          rw [Verdict.all_eq_true]
          simp only [List.forall_mem_cons]
          refine ⟨?_, (Element.kindIs_child_iff 2 _).mpr isFunction, List.forall_mem_nil _⟩
          rw [Element.kindIs_of_entry found, Element.kindIs_nil_eq_true]
          exact listKind
        have within : decorator grammar (path ++ [1, index + 1]) child ⊆ decorated grammar path node := by
          intro step member
          rw [decorated, holds, found]
          exact List.mem_flatMap.mpr
            ⟨_, Element.mem_numbered_of_element (Nat.le_add_left 1 index) isChild, member⟩
        have notes := (decorator_notes_iff (sound_of_subset sound within)).mpr ⟨way, rfl, called⟩
        rcases notes with ⟨terminal, inPlan⟩
        refine ⟨terminal, within ?_⟩
        simpa using inPlan

end Plan

namespace Grammar

variable {grammar : Grammar}

/-! ## The constructs that call -/

/-- What calls is a primary or something decorated, and these are different constructs. -/
theorem constructOf_caller (version : grammar ∈ versions) :
    grammar.constructOf (.int grammar.power) = .power ∧
      grammar.constructOf (.int grammar.decorated) = .decorated ∧
      Kind.firstConstruct ≤ grammar.power ∧ Kind.firstConstruct ≤ grammar.decorated ∧
      grammar.decorated ≠ grammar.power := by
  rcases mem_versions.mp version with rfl | rfl | rfl <;> decide

end Grammar

namespace Element

variable {grammar : Grammar} {node : Element} {way : Path}

theorem Calls.isConstruct (version : grammar ∈ Grammar.versions) (calls : node.Calls grammar way) :
    node.isConstruct = .ok true := by
  rcases Grammar.constructOf_caller version with ⟨_, _, power, decorated, _⟩
  cases calls with
  | name isPrimary | member _ isPrimary => exact isConstruct_of_isOfKind isPrimary power
  | decorator isDecorated => exact isConstruct_of_isOfKind isDecorated decorated

theorem Calls.constructIn_eq (version : grammar ∈ Grammar.versions) (calls : node.Calls grammar way) :
    node.constructIn grammar = .power ∨ node.constructIn grammar = .decorated := by
  rcases Grammar.constructOf_caller version with ⟨power, decorated, _⟩
  cases calls with
  | name isPrimary | member _ isPrimary =>
      exact Or.inl ((Grammar.constructIn_of_isOfKind isPrimary).trans power)
  | decorator isDecorated =>
      exact Or.inr ((Grammar.constructIn_of_isOfKind isDecorated).trans decorated)

/-- The names that a primary calls are those that it asks for. -/
theorem calls_iff_calledAt (notDecorated : node.isOfKind grammar.decorated = false) :
    node.Calls grammar way ↔ CalledAt grammar node way := by
  constructor
  · intro calls
    cases calls with
    | name isPrimary named called => exact .name (isNamedCall_iff.mpr ⟨isPrimary, named, called⟩)
    | member position isPrimary named called =>
        exact .member position ((isAttributeCall_iff position).mpr ⟨isPrimary, named, called⟩)
    | decorator isDecorated =>
        rw [notDecorated] at isDecorated
        cases isDecorated
  · intro calledAt
    cases calledAt with
    | name isCall =>
        rcases isNamedCall_iff.mp isCall with ⟨isPrimary, named, called⟩
        exact .name isPrimary named called
    | member position isCall =>
        rcases (isAttributeCall_iff position).mp isCall with ⟨isPrimary, named, called⟩
        exact .member position isPrimary named called

end Element

namespace Plan

variable {grammar : Grammar} {path place : Path} {node : Element}

/-- A primary notes calls for the names that it calls, whether it is assigned to or not. -/
theorem power_notes_iff (notDecorated : node.isOfKind grammar.decorated = false) {state : State}
    (sound : (ofConstruct grammar state path node .power).any Step.isDoomed = false) :
    (∃ terminal, .mark place terminal .call ∈ ofConstruct grammar state path node .power) ↔
      ∃ way, place = path ++ way ∧ node.Calls grammar way := by
  have soundCalls := sound_of_subset sound (List.subset_append_right _ (calls grammar path node))
  simp only [Element.calls_iff_calledAt notDecorated, ← calls_notes_iff soundCalls]
  constructor
  · rintro ⟨terminal, isStep⟩
    refine ⟨terminal, (List.mem_append.mp isStep).resolve_left ?_⟩
    -- What is assigned to is marked as such.
    intro inTarget
    split at inTarget
    next =>
      rcases List.mem_cons.mp inTarget with isSettle | inTarget
      · cases isSettle
      · cases target_seeks grammar path node _ inTarget
    next => cases inTarget
  · rintro ⟨terminal, isStep⟩
    exact ⟨terminal, List.mem_append_right _ isStep⟩

/-- A construct notes calls for the names that it calls. -/
theorem construct_notes_iff (version : grammar ∈ Grammar.versions) {state : State}
    (sound : (construct grammar state path node).any Step.isDoomed = false) :
    (∃ terminal, .mark place terminal .call ∈ construct grammar state path node) ↔
      ∃ way, place = path ++ way ∧ node.Calls grammar way := by
  rcases Grammar.constructOf_caller version with ⟨_, ofDecorated, _, _, different⟩
  cases hasKind : node.kind with
  | error fault =>
      simp only [construct, hasKind] at sound
      cases sound
  | ok kind =>
      rw [construct_eq hasKind] at sound ⊢
      cases sort : node.constructIn grammar with
      | power =>
          rw [sort] at sound
          apply power_notes_iff _ sound
          rw [Bool.eq_false_iff]
          intro isDecorated
          rw [Grammar.constructIn_of_isOfKind isDecorated, ofDecorated] at sort
          cases sort
      | decorated =>
          rw [sort] at sound
          rw [Element.constructIn_eq hasKind] at sort
          have isNumber := Grammar.isNumberIn_of_constructOf sort (by decide)
          rw [Construct.kinds, Element.isNumberIn_singleton] at isNumber
          have isDecorated := (Element.isOfKind_eq hasKind _).trans isNumber
          exact decorated_notes_iff isDecorated (Element.not_isOfKind isDecorated _ different) sound
      | globalStatement | functionDefinition | importFrom | importName | importedNames | dottedName
      | expressionStatement | expression | classDefinition | other =>
          constructor
          · rintro ⟨terminal, isStep⟩
            have isMark := (ofConstruct_aims (Grammar.test_mem_targets version) state _ _ isStep).1
            simp [Construct.marks] at isMark
          · rintro ⟨way, _, calls⟩
            rcases calls.constructIn_eq version with isPower | isDecorated
            · rw [sort] at isPower
              cases isPower
            · rw [sort] at isDecorated
              cases isDecorated

end Plan

namespace Walk

variable {settings : Settings} {tree : Element}

/-- A walk that comes to its end could carry out the plans of all constructs. -/
theorem sound_of_met (complete : (ofTree settings tree).fault = none) {state : State} {path : Path}
    {node : Element} (met : (state, path, node) ∈ (ofTree settings tree).meetings tree)
    (isConstruct : node.isConstruct = .ok true) :
    (Plan.construct settings.grammar state path node).any Step.isDoomed = false := by
  rcases List.append_of_mem met with ⟨early, late, split⟩
  rcases passage_of_met complete split with ⟨after, _, passes, _⟩
  cases passes with
  | construct _ visited => exact State.isDoomed_of_takeAll visited
  | terminal number isTerminal =>
      rw [isConstruct] at isTerminal
      cases isTerminal

/-- In a walk that comes to its end a name is written with the mark of a call exactly if a node of the
tree calls it. -/
theorem shows_call_iff (version : settings.grammar ∈ Grammar.versions)
    (complete : (ofTree settings tree).fault = none) {place : Path} {terminal : Element}
    (inTree : (place, terminal) ∈ tree.preorder []) (isName : terminal.isOfKind Kind.name = true) :
    (ofTree settings tree).shows .call place = true ↔
      ∃ base node way, (base, node) ∈ tree.preorder [] ∧ node.Calls settings.grammar way ∧
        place = base ++ way := by
  have canHold : terminal.isOfKindIn [Kind.name, Kind.dot] = true :=
    Element.isOfKindIn_of_mem isName List.mem_cons_self
  rw [shows_iff_noted version complete inTree canHold, ← meetings_nodes complete]
  constructor
  · rintro ⟨⟨state, base, node⟩, met, isConstruct, noted⟩
    have sound := sound_of_met complete met isConstruct
    rcases (Plan.construct_notes_iff version sound).mp noted with ⟨way, isPlace, calls⟩
    exact ⟨base, node, way, List.mem_map_of_mem met, calls, isPlace⟩
  · rintro ⟨base, node, way, isNode, calls, isPlace⟩
    rcases List.mem_map.mp isNode with ⟨⟨state, _, _⟩, met, isEntry⟩
    cases isEntry
    have isConstruct := calls.isConstruct version
    have sound := sound_of_met complete met isConstruct
    exact ⟨_, met, isConstruct, (Plan.construct_notes_iff version sound).mpr ⟨way, isPlace, calls⟩⟩

/-- The primary `h()`. -/
def innerCall : Element :=
  .node [.int 319, .node [.int 320, .node [.int 1, .text "h", .int 3]],
    .node [.int 322, .node [.int 7, .text "(", .int 3], .node [.int 8, .text ")", .int 3]]]

/-- The primary `x.g(h())`. -/
def outerCall : Element :=
  .node [.int 319, .node [.int 320, .node [.int 1, .text "x", .int 3]],
    .node [.int 322, .node [.int 23, .text ".", .int 3], .node [.int 1, .text "g", .int 3]],
    .node [.int 322, .node [.int 7, .text "(", .int 3], .node [.int 330, innerCall],
      .node [.int 8, .text ")", .int 3]]]

/-- The function `def f(): x.g(h())` with the decorators `@a.b` and `@property`. -/
def decoratedFunction : Element :=
  .node [.int 261,
    .node [.int 260,
      .node [.int 259, .node [.int 49, .text "@", .int 1],
        .node [.int 289, .node [.int 1, .text "a", .int 1], .node [.int 23, .text ".", .int 1],
          .node [.int 1, .text "b", .int 1]],
        .node [.int 4, .text "", .int 1]],
      .node [.int 259, .node [.int 49, .text "@", .int 2],
        .node [.int 289, .node [.int 1, .text "property", .int 2]],
        .node [.int 4, .text "", .int 2]]],
    .node [.int 262, .node [.int 1, .text "def", .int 3], .node [.int 1, .text "f", .int 3],
      .node [.int 263, .node [.int 7, .text "(", .int 3], .node [.int 8, .text ")", .int 3]],
      .node [.int 11, .text ":", .int 3],
      .node [.int 301, .node [.int 269, outerCall, .node [.int 4, .text "", .int 3]]]]]

def decoratedSource : Element :=
  .node [.int 257, decoratedFunction, .node [.int 0, .text "", .int 4]]

theorem decoratedSource_complete : (ofTree {} decoratedSource).fault = none := by
  rw [ofTree_eq_visitEach]
  decide +kernel

theorem shows_call_iff_decoratedSource :
    Settings.grammar {} ∈ Grammar.versions ∧ (ofTree {} decoratedSource).fault = none ∧
      ([1, 1, 1, 2, 3], .node [.int 1, .text "b", .int 1]) ∈ decoratedSource.preorder [] ∧
      (ofTree {} decoratedSource).shows .call [1, 1, 1, 2, 3] = true ∧
      (ofTree {} decoratedSource).shows .call [1, 2, 5, 1, 1, 2, 2] = true ∧
      (ofTree {} decoratedSource).shows .call [1, 2, 5, 1, 1, 3, 2, 1, 1, 1] = true ∧
      (ofTree {} decoratedSource).shows .call [1, 1, 2, 2, 1] = false := by
  have version : Settings.grammar {} ∈ Grammar.versions := List.mem_cons_self
  have isDecorated : ([1], decoratedFunction) ∈ decoratedSource.preorder [] :=
    List.mem_of_getElem? (i := 1) rfl
  have isLastPart : ([1, 1, 1, 2, 3], .node [.int 1, .text "b", .int 1]) ∈
      decoratedSource.preorder [] :=
    List.mem_of_getElem? (i := 8) rfl
  refine ⟨version, decoratedSource_complete, isLastPart, ?_, ?_, ?_, ?_⟩
  · rw [shows_call_iff version decoratedSource_complete isLastPart rfl]
    have called : decoratedFunction.Calls .version3 [1, 1, 2, 3] :=
      .decorator rfl rfl rfl rfl rfl (.lastPart rfl rfl rfl rfl rfl (fun isFirst => absurd isFirst (by decide)))
    exact ⟨[1], _, _, isDecorated, called, rfl⟩
  · have isAttribute : ([1, 2, 5, 1, 1, 2, 2], .node [.int 1, .text "g", .int 3]) ∈
        decoratedSource.preorder [] :=
      List.mem_of_getElem? (i := 29) rfl
    have isOuter : ([1, 2, 5, 1, 1], outerCall) ∈ decoratedSource.preorder [] :=
      List.mem_of_getElem? (i := 24) rfl
    rw [shows_call_iff version decoratedSource_complete isAttribute rfl]
    exact ⟨_, _, _, isOuter, .member 2 rfl rfl rfl, rfl⟩
  · have isArgument : ([1, 2, 5, 1, 1, 3, 2, 1, 1, 1], .node [.int 1, .text "h", .int 3]) ∈
        decoratedSource.preorder [] :=
      List.mem_of_getElem? (i := 35) rfl
    have isInner : ([1, 2, 5, 1, 1, 3, 2, 1], innerCall) ∈ decoratedSource.preorder [] :=
      List.mem_of_getElem? (i := 33) rfl
    rw [shows_call_iff version decoratedSource_complete isArgument rfl]
    exact ⟨_, _, _, isInner, .name rfl rfl rfl, rfl⟩
  · have isProperty : ([1, 1, 2, 2, 1], .node [.int 1, .text "property", .int 2]) ∈
        decoratedSource.preorder [] :=
      List.mem_of_getElem? (i := 13) rfl
    rw [Bool.eq_false_iff, ne_eq, shows_call_iff version decoratedSource_complete isProperty rfl]
    rintro ⟨base, node, way, isNode, calls, isPlace⟩
    have backward := congrArg List.reverse isPlace
    cases calls with
    | name => simp at backward
    | member => simp at backward
    | @decorator _ _ index _ _ isList _ _ isChild called =>
        cases called with
        | @lastPart _ _ last _ isDotted _ _ isName notPlain =>
            have parts : last = 0 ∧ index = 1 ∧ [1] = base.reverse := by simpa using backward
            rcases parts with ⟨rfl, rfl, isBase⟩
            have isFirst : base = [1] := List.reverse_eq_iff.mp isBase.symm
            subst isFirst
            cases Element.eq_of_mem_preorder isNode isDecorated
            cases isList
            cases isChild
            cases isDotted
            cases isName
            exact notPlain rfl (by decide)

end Walk

end CrossRef
