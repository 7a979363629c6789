import CrossRef.Proofs.ClosedConstructs
import CrossRef.Proofs.MarkPlaces

/-!
# Plans at moved places

Every plan asks about a node only what the nodes that resemble it answer in the same way, as long as it
looks into open constructs.  Where a plan looks further it has made sure before, by a demand or by the
question of a branch, that what it looks into is open.
-/

namespace CrossRef

open Element (Relocated opens_nil opens_one opens_two)

variable {relocation : Relocation} {place moved : Path} {node other : Element} {grammar : Grammar}

/-- Questions joined together have the same answer if each of them has, provided that those before it
hold. -/
theorem Verdict.all_cons_congr {first second : Verdict} {rest others : List Verdict}
    (same : second = first) (behind : first = .ok true → all others = all rest) :
    all (second :: others) = all (first :: rest) := by
  rw [same, all, all]
  rcases first with fault | _ | _
  · rfl
  · rfl
  · exact behind rfl

namespace Plan

theorem isOpen_of_kindIs (version : grammar ∈ Grammar.versions) {number : Nat}
    (isKind : node.kindIs [] number = .ok true) (looked : number ∈ grammar.lookedInto) :
    node.isOpen = true :=
  Element.isOpen_of_isOfKind (Element.kindIs_nil_eq_true.mp isKind) (Grammar.not_closed version looked)

theorem opens_below (version : grammar ∈ Grammar.versions) (isOpen : node.isOpen = true) {position : Int}
    {number : Nat} (isKind : node.kindIs [position] number = .ok true)
    (looked : number ∈ grammar.lookedInto) (later : Int) : node.Opens [position, later] :=
  opens_two isOpen isKind (Grammar.not_closed version looked) later

theorem mark_moved (pair : Relocated relocation place moved node other) (mark : Mark) :
    (Step.mark place node mark).Moved relocation (.mark moved other mark) := by
  rw [pair.isMoved]
  exact .mark place pair.alike.kind mark

theorem await_moved (pair : Relocated relocation place moved node other) :
    (Step.await place).Moved relocation (.await moved) := by
  rw [pair.isMoved]
  exact .await place

theorem markAt_moved (pair : Relocated relocation place moved node other) {route : List Int}
    (opens : node.Opens route) (mark : Mark) :
    Moved relocation (markAt place node route mark) (markAt moved other route mark) := by
  have located := pair.locate opens
  unfold markAt
  generalize Element.locate place node route = target at located
  generalize Element.locate moved other route = otherTarget at located
  cases located with
  | error fault => exact moved_fail _ _
  | ok found => exact .cons (mark_moved found mark) .nil

theorem markAll_moved (pair : Relocated relocation place moved node other) (isOpen : node.isOpen = true)
    (mark : Mark) : Moved relocation (markAll place node mark) (markAll moved other mark) := by
  apply moved_map (pair.numbered isOpen 1)
  rintro ⟨position, terminal⟩ ⟨otherPosition, otherTerminal⟩ ⟨same, found⟩
  cases same
  exact mark_moved found mark

/-! ## Declarations -/

theorem globalStatement_moved (pair : Relocated relocation place moved node other)
    (isOpen : node.isOpen = true) :
    Moved relocation (globalStatement place node) (globalStatement moved other) := by
  have filtered : Relocated.Entries relocation place moved
      ((node.numbered 2).filter fun entry => entry.1 % 2 = 0)
      ((other.numbered 2).filter fun entry => entry.1 % 2 = 0) := by
    apply List.rel_filter _ (pair.numbered isOpen 2)
    rintro ⟨position, child⟩ ⟨otherPosition, otherChild⟩ ⟨same, _⟩
    cases same
    rfl
  apply moved_flatMap filtered
  rintro ⟨position, child⟩ ⟨otherPosition, otherChild⟩ ⟨same, found⟩
  cases same
  apply moved_demand (found.kindIs (opens_nil child) _)
  intro _
  exact .cons (mark_moved found _) .nil

theorem word_moved (pair : Relocated relocation place moved node other) (isOpen : node.isOpen = true)
    {position : Int} (isName : node.kindIs [position] Kind.name = .ok true) (word : String) :
    other.asks [position, 1] (·.isText word) = node.asks [position, 1] (·.isText word) := by
  have same := pair.asks_text (opens_two isOpen isName (by decide) 1) [word]
  simpa only [List.any_cons, List.any_nil, Bool.or_false] using same

theorem functionName_moved (pair : Relocated relocation place moved node other)
    (isOpen : node.isOpen = true) (position : Int) :
    Moved relocation (functionName place node position) (functionName moved other position) := by
  apply moved_demand
  · apply Verdict.all_cons_congr (pair.kindIs (opens_one isOpen position) _)
    intro isName
    rw [word_moved pair isOpen isName]
  · intro _
    exact markAt_moved pair (opens_one isOpen _) _

theorem functionDefinition_moved (pair : Relocated relocation place moved node other)
    (isOpen : node.isOpen = true) :
    Moved relocation (functionDefinition grammar place node) (functionDefinition grammar moved other) := by
  apply moved_step rfl
  apply moved_branch (pair.kindIs (opens_one isOpen 1) _)
  · intro _
    exact functionName_moved pair isOpen 2
  · intro _
    exact functionName_moved pair isOpen 1

theorem classDefinition_moved (pair : Relocated relocation place moved node other)
    (isOpen : node.isOpen = true) :
    Moved relocation (classDefinition place node) (classDefinition moved other) := by
  apply moved_demand
  · apply Verdict.all_cons_congr (pair.kindIs (opens_one isOpen 1) _)
    intro isName
    rw [word_moved pair isOpen isName]
  · intro _
    exact markAt_moved pair (opens_one isOpen _) _

theorem decoratorName_moved (pair : Relocated relocation place moved node other)
    (isOpen : node.isOpen = true) :
    Moved relocation (decoratorName place node) (decoratorName moved other) := by
  have marks := markAt_moved pair (opens_one isOpen (-1)) .call
  unfold decoratorName
  rw [pair.alike.length]
  split
  · exact moved_fail _ _
  · split
    · exact moved_fail _ _
    · split
      · exact marks
      · apply moved_demand (pair.kindIs (opens_one isOpen (-1)) _)
        intro isName
        apply moved_branch (pair.asks_text (opens_two isOpen isName (by decide) 1) plainDecorators)
        · intro _
          exact .nil
        · intro _
          exact marks

theorem decorator_moved (version : grammar ∈ Grammar.versions)
    (pair : Relocated relocation place moved node other) :
    Moved relocation (decorator grammar place node) (decorator grammar moved other) := by
  apply moved_demand (pair.kindIs (opens_nil node) _)
  intro isDecorator
  have isOpen := isOpen_of_kindIs version isDecorator (by simp)
  apply moved_demand (pair.kindIs (opens_one isOpen 1) _)
  intro _
  apply moved_demand (pair.kindIs (opens_one isOpen 2) _)
  intro isDotted
  have second : Element.Matching _ (node.entry 2) (other.entry 2) := pair.entry_front isOpen 2
  rcases second.cases with ⟨fault, isError, alsoError⟩ | ⟨dotted, otherDotted, isEntry, isOther, found⟩
  · rw [isError, alsoError]
    exact moved_fail _ _
  · rw [isEntry, isOther]
    rw [Element.kindIs_of_entry isEntry] at isDotted
    exact decoratorName_moved found (isOpen_of_kindIs version isDotted (by simp))

theorem decorated_moved (version : grammar ∈ Grammar.versions)
    (pair : Relocated relocation place moved node other) (isOpen : node.isOpen = true) :
    Moved relocation (decorated grammar place node) (decorated grammar moved other) := by
  apply moved_branch
  · apply Verdict.all_cons_congr (pair.kindIs (opens_one isOpen 1) _)
    intro _
    apply Verdict.all_cons_congr (pair.kindIs (opens_one isOpen 2) _)
    intro _
    rfl
  · intro holds
    have isList := Verdict.all_eq_true.mp holds _ List.mem_cons_self
    have first : Element.Matching _ (node.entry 1) (other.entry 1) := pair.entry_front isOpen 1
    rcases first.cases with ⟨fault, isError, alsoError⟩ | ⟨list, otherList, isEntry, isOther, found⟩
    · rw [isError, alsoError]
      exact moved_fail _ _
    · rw [isEntry, isOther]
      rw [Element.kindIs_of_entry isEntry] at isList
      have listOpen := isOpen_of_kindIs version isList (by simp)
      apply moved_flatMap (found.numbered listOpen 1)
      rintro ⟨position, child⟩ ⟨otherPosition, otherChild⟩ ⟨same, below⟩
      cases same
      rw [List.append_assoc, List.append_assoc] at below
      exact decorator_moved version below
  · intro _
    exact .nil

/-! ## Imports -/

theorem moduleName_moved (version : grammar ∈ Grammar.versions) {entries others : List (Nat × Element)}
    (pairs : Relocated.Entries relocation place moved entries others) (sort otherSort : String) :
    Moved relocation (moduleName grammar place sort entries) (moduleName grammar moved otherSort others) := by
  induction pairs with
  | nil => exact moved_fail _ _
  | @cons entry otherEntry _ _ same _ ih =>
      rcases entry with ⟨position, child⟩
      rcases otherEntry with ⟨otherPosition, otherChild⟩
      rcases same with ⟨isPosition, found⟩
      cases isPosition
      unfold moduleName
      simp only [found.alike.kind]
      cases hasKind : child.kind with
      | error fault => exact moved_fail _ _
      | ok kind =>
          simp only
          split
          · exact ih
          · split
            next isDotted =>
              rw [← Element.isOfKind_eq hasKind] at isDotted
              apply markAll_moved found
              apply Element.isOpen_of_isOfKind isDotted
              exact Grammar.not_closed version (by simp)
            · exact .nil

theorem importedNames_moved (pair : Relocated relocation place moved node other) (grammar : Grammar)
    (state : State) :
    Moved relocation (importedNames grammar state node)
      (importedNames grammar (state.relocate relocation) other) := by
  unfold importedNames
  rw [pair.alike.count]
  show Moved relocation _ (if state.importing then _ else _)
  split
  · exact moved_step rfl .nil
  · exact .nil

theorem dottedName_moved (pair : Relocated relocation place moved node other) (isOpen : node.isOpen = true)
    (state : State) :
    Moved relocation (dottedName state place node) (dottedName (state.relocate relocation) moved other) := by
  unfold dottedName
  show Moved relocation _ (if state.importing then if 2 ≤ state.importHalves.getD 0 then _ else _ else _)
  split
  · split
    · apply (markAll_moved pair isOpen _).append
      exact moved_step rfl .nil
    · exact moved_fail _ _
  · exact .nil

/-! ## Assignments -/

theorem awaitMembers_moved (kinds : List Nat) {entries others : List (Nat × Element)}
    (pairs : Relocated.Entries relocation place moved entries others) :
    Moved relocation (awaitMembers kinds place entries) (awaitMembers kinds moved others) := by
  induction pairs with
  | nil => exact .nil
  | @cons entry otherEntry _ _ same _ ih =>
      rcases entry with ⟨position, child⟩
      rcases otherEntry with ⟨otherPosition, otherChild⟩
      rcases same with ⟨isPosition, found⟩
      cases isPosition
      unfold awaitMembers
      simp only [found.alike.kind]
      split
      · exact moved_fail _ _
      · split
        · exact ih
        · split
          · exact .cons (await_moved found) ih
          · exact .nil

theorem targetList_moved (version : grammar ∈ Grammar.versions)
    (pair : Relocated relocation place moved node other) :
    Moved relocation (targetList grammar place node) (targetList grammar moved other) := by
  apply moved_demand (pair.kindIs (opens_nil node) _)
  intro isList
  have isOpen := isOpen_of_kindIs version isList (by simp)
  exact awaitMembers_moved _ (pair.numbered isOpen 1)

theorem targetChain_moved (version : grammar ∈ Grammar.versions) {entries others : List (Nat × Element)}
    (pairs : Relocated.Entries relocation place moved entries others) :
    Moved relocation (targetChain grammar place entries) (targetChain grammar moved others) := by
  induction pairs with
  | nil => exact .nil
  | @cons entry otherEntry _ _ same _ ih =>
      rcases entry with ⟨position, child⟩
      rcases otherEntry with ⟨otherPosition, otherChild⟩
      rcases same with ⟨isPosition, found⟩
      cases isPosition
      unfold targetChain
      simp only [found.alike.kind]
      split
      · exact moved_fail _ _
      · split
        · exact ih
        · split
          · exact (targetList_moved version found).append ih
          · exact .nil

/-- What is found two steps below a node, through a construct that a plan looks into. -/
theorem follow_two_moved (version : grammar ∈ Grammar.versions)
    (pair : Relocated relocation place moved node other) (isOpen : node.isOpen = true) (index later : Nat)
    {number : Nat} (isKind : node.kindIs [(index : Int)] number = .ok true)
    (looked : number ∈ grammar.lookedInto) :
    Element.Matching (Relocated relocation (place ++ [index, later]) (moved ++ [index, later]))
      (node.follow [(index : Int), (later : Int)]) (other.follow [(index : Int), (later : Int)]) := by
  rcases (pair.entry_front isOpen index).cases with
    ⟨fault, isError, alsoError⟩ | ⟨child, otherChild, isEntry, isOther, found⟩
  · rw [Element.follow, isError, Element.follow, alsoError]
    exact .error fault
  · rw [Element.kindIs_of_entry isEntry] at isKind
    have childOpen := isOpen_of_kindIs version isKind looked
    have below := found.entry_front childOpen later
    rw [Element.follow, isEntry, Element.follow, isOther]
    simp only [Element.follow]
    rw [List.append_assoc, List.append_assoc] at below
    generalize child.entry later = inner at below
    generalize otherChild.entry later = otherInner at below
    cases below with
    | error fault => exact .error fault
    | ok related => exact .ok related

theorem augmentedTarget_moved (version : grammar ∈ Grammar.versions)
    (pair : Relocated relocation place moved node other) (isOpen : node.isOpen = true)
    (isList : node.kindIs [1] grammar.targetList = .ok true) :
    Moved relocation (augmentedTarget grammar place node) (augmentedTarget grammar moved other) := by
  have targets : Element.Matching (Relocated relocation (place ++ [1, 1]) (moved ++ [1, 1]))
      (node.follow [1, 1]) (other.follow [1, 1]) :=
    follow_two_moved version pair isOpen 1 1 isList (by simp)
  have further (element : Element) : element.follow [1, 1, 0] = element.follow ([1, 1] ++ [0]) := rfl
  unfold augmentedTarget
  rw [further, further, Element.follow_append, Element.follow_append]
  rcases targets.cases with ⟨fault, isError, alsoError⟩ | ⟨target, otherTarget, isTarget, isOther, found⟩
  · rw [isError, alsoError]
    exact moved_fail _ _
  · have kinds : otherTarget.entry 0 = target.entry 0 := found.alike.kind
    rw [isTarget, isOther]
    simp only [kinds]
    cases target.entry 0 with
    | error fault => exact moved_fail _ _
    | ok kind =>
        simp only
        split
        · exact .cons (await_moved found) .nil
        · split <;> exact moved_fail _ _

theorem expressionStatement_moved (version : grammar ∈ Grammar.versions)
    (pair : Relocated relocation place moved node other) (isOpen : node.isOpen = true) :
    Moved relocation (expressionStatement grammar place node) (expressionStatement grammar moved other) := by
  unfold expressionStatement
  rw [pair.alike.count]
  split
  · exact .nil
  · apply moved_demand (pair.kindIs (opens_one isOpen 1) _)
    intro isList
    apply moved_branch
    · apply Verdict.all_cons_congr (pair.kindIs (opens_one isOpen 2) _)
      intro _
      rw [pair.kindIn (opens_one isOpen 3)]
    · intro _
      exact augmentedTarget_moved version pair isOpen isList
    · intro _
      apply moved_branch (pair.kindIs (opens_one isOpen 2) _)
      · intro _
        have first : Element.Matching _ (node.entry 1) (other.entry 1) := pair.entry_front isOpen 1
        rcases first.cases with ⟨fault, isError, alsoError⟩ | ⟨list, otherList, isEntry, isOther, found⟩
        · rw [isError, alsoError]
          exact moved_fail _ _
        · rw [isEntry, isOther]
          apply (targetList_moved version found).append
          apply targetChain_moved version
          have entries := pair.numbered isOpen 3
          unfold Relocated.Entries at entries ⊢
          rw [List.dropLast_eq_take, List.dropLast_eq_take, ← entries.length_eq]
          exact List.forall₂_take _ entries
      · intro _
        exact .nil

theorem isOpen_of_kindIn (version : grammar ∈ Grammar.versions) {numbers : List Nat}
    (isKind : node.kindIn [] numbers = .ok true) (looked : ∀ number ∈ numbers, number ∈ grammar.lookedInto) :
    node.isOpen = true := by
  rw [Element.kindIn_nil] at isKind
  split at isKind
  next kind hasKind =>
    rcases List.any_eq_true.mp (Except.ok.inj isKind) with ⟨number, member, isNumber⟩
    apply Element.isOpen_of_isOfKind ((Element.isOfKind_eq hasKind number).trans isNumber)
    exact Grammar.not_closed version (looked number member)
  next => cases isKind

theorem bareTarget_moved (version : grammar ∈ Grammar.versions)
    (pair : Relocated relocation place moved node other) (isOpen : node.isOpen = true)
    (isAtom : node.kindIs [1] grammar.atom = .ok true) :
    Moved relocation (bareTarget grammar place node) (bareTarget grammar moved other) := by
  have opens := opens_below version isOpen isAtom (by simp)
  apply moved_branch
  · apply Verdict.all_cons_congr (pair.lengthIs (opens_one isOpen 1) _)
    intro _
    rw [pair.kindIs (opens 1)]
  · intro _
    exact markAt_moved pair (opens 1) _
  · intro _
    apply moved_branch
    · apply Verdict.all_cons_congr (pair.lengthIs (opens_one isOpen 1) _)
      intro _
      rw [pair.kindIn (opens 1), pair.kindIn (opens 2), pair.kindIn (opens 3)]
    · intro holds
      have isBracketed : node.kindIn [1, 2] grammar.bracketed = .ok true :=
        Verdict.all_eq_true.mp holds _ (by simp)
      have members : Element.Matching (Relocated relocation (place ++ [1, 2]) (moved ++ [1, 2]))
          (node.follow [1, 2]) (other.follow [1, 2]) :=
        follow_two_moved version pair isOpen 1 2 isAtom (by simp)
      rcases members.cases with ⟨fault, isError, alsoError⟩ | ⟨list, otherList, isFound, isOther, found⟩
      · rw [isError, alsoError]
        exact moved_fail _ _
      · rw [isFound, isOther]
        apply awaitMembers_moved
        apply found.numbered
        rw [Element.kindIn_of_follow isFound] at isBracketed
        apply isOpen_of_kindIn version isBracketed
        intro number member
        exact List.mem_append_right _ member
    · intro _
      exact .nil

theorem isSubscriptedName_moved (version : grammar ∈ Grammar.versions)
    (pair : Relocated relocation place moved node other) (isOpen : node.isOpen = true) :
    isSubscriptedName grammar other = isSubscriptedName grammar node := by
  unfold isSubscriptedName
  rw [pair.alike.count]
  apply Verdict.all_cons_congr rfl
  intro _
  apply Verdict.all_cons_congr (pair.kindIs (opens_one isOpen 1) _)
  intro isAtom
  have inAtom := opens_below version isOpen isAtom (by simp)
  rw [pair.lengthIs (opens_one isOpen 1), pair.kindIs (inAtom 1), pair.lengthIs (opens_one isOpen 2)]
  apply Verdict.all_cons_congr rfl
  intro _
  apply Verdict.all_cons_congr rfl
  intro _
  apply Verdict.all_cons_congr rfl
  intro _
  apply Verdict.all_cons_congr (pair.kindIs (opens_one isOpen 2) _)
  intro isTrailer
  have inTrailer := opens_below version isOpen isTrailer (by simp)
  rw [pair.kindIs (inTrailer 1), pair.kindIs (inTrailer (-1))]

theorem isAttribute_moved (version : grammar ∈ Grammar.versions)
    (pair : Relocated relocation place moved node other) (isOpen : node.isOpen = true) (position : Int) :
    isAttribute grammar other position = isAttribute grammar node position := by
  apply Verdict.all_cons_congr (pair.lengthIs (opens_one isOpen position) _)
  intro _
  apply Verdict.all_cons_congr (pair.kindIs (opens_one isOpen position) _)
  intro isTrailer
  have inTrailer := opens_below version isOpen isTrailer (by simp)
  rw [pair.kindIs (inTrailer 1), pair.kindIs (inTrailer 2)]

theorem endsInSubscript_moved (version : grammar ∈ Grammar.versions)
    (pair : Relocated relocation place moved node other) (isOpen : node.isOpen = true) :
    endsInSubscript grammar other = endsInSubscript grammar node := by
  apply Verdict.all_cons_congr (pair.lengthIs (opens_one isOpen (-1)) _)
  intro _
  apply Verdict.all_cons_congr (pair.kindIs (opens_one isOpen (-1)) _)
  intro isTrailer
  have inTrailer := opens_below version isOpen isTrailer (by simp)
  rw [pair.kindIs (inTrailer 1), pair.kindIs (inTrailer (-1))]

/-- A mark below a part of a primary that is known to be of a kind that plans look into. -/
theorem markBelow_moved (version : grammar ∈ Grammar.versions)
    (pair : Relocated relocation place moved node other) (isOpen : node.isOpen = true) {position : Int}
    {number : Nat} (isKind : node.kindIs [position] number = .ok true)
    (looked : number ∈ grammar.lookedInto) (later : Int) (mark : Mark) :
    Moved relocation (markAt place node [position, later] mark) (markAt moved other [position, later] mark) :=
  markAt_moved pair (opens_below version isOpen isKind looked later) mark

theorem target_moved (version : grammar ∈ Grammar.versions)
    (pair : Relocated relocation place moved node other) (isOpen : node.isOpen = true) :
    Moved relocation (target grammar place node) (target grammar moved other) := by
  unfold target
  rw [pair.alike.count, isSubscriptedName_moved version pair isOpen, isAttribute_moved version pair isOpen,
    isAttribute_moved version pair isOpen, endsInSubscript_moved version pair isOpen,
    pair.kindIs (opens_one isOpen 1)]
  apply moved_branch rfl
  · intro holds
    have isAtom : node.kindIs [1] grammar.atom = .ok true := Verdict.all_eq_true.mp holds _ (by simp)
    exact bareTarget_moved version pair isOpen isAtom
  · intro _
    apply moved_branch rfl
    · intro holds
      exact markBelow_moved version pair isOpen (isSubscriptedName_parts holds).1
        (by simp) 1 _
    · intro _
      apply moved_branch rfl
      · intro holds
        have isAttribute : isAttribute grammar node (-1) = .ok true :=
          Verdict.all_eq_true.mp holds _ (by simp)
        exact markBelow_moved version pair isOpen (isAttribute_parts isAttribute).1
          (by simp) 2 _
      · intro _
        apply moved_branch rfl
        · intro holds
          have isAttribute : isAttribute grammar node (-2) = .ok true :=
            Verdict.all_eq_true.mp holds _ (by simp)
          exact markBelow_moved version pair isOpen (isAttribute_parts isAttribute).1
            (by simp) 2 _
        · intro _
          exact .nil

/-! ## Calls -/

theorem isNamedCall_moved (version : grammar ∈ Grammar.versions)
    (pair : Relocated relocation place moved node other) (isOpen : node.isOpen = true) (length : Int) :
    isNamedCall grammar other length = isNamedCall grammar node length := by
  unfold isNamedCall
  rw [pair.kindIs (opens_nil node)]
  split
  · rfl
  · rfl
  · split
    · rfl
    · apply Verdict.all_cons_congr (pair.kindIs (opens_one isOpen 1) _)
      intro isAtom
      have inAtom := opens_below version isOpen isAtom (by simp)
      apply Verdict.all_cons_congr (pair.kindIs (inAtom 1) _)
      intro _
      apply Verdict.all_cons_congr (pair.kindIs (opens_one isOpen 2) _)
      intro isTrailer
      have inTrailer := opens_below version isOpen isTrailer (by simp)
      rw [pair.kindIs (inTrailer 1), pair.kindIs (inTrailer (-1))]

theorem isAttributeCall_moved (version : grammar ∈ Grammar.versions)
    (pair : Relocated relocation place moved node other) (isOpen : node.isOpen = true)
    (position length : Int) :
    isAttributeCall grammar other position length = isAttributeCall grammar node position length := by
  unfold isAttributeCall
  rw [pair.kindIs (opens_nil node)]
  split
  · rfl
  · rfl
  · split
    · apply Verdict.all_cons_congr (pair.kindIs (opens_one isOpen position) _)
      intro isTrailer
      have inTrailer := opens_below version isOpen isTrailer (by simp)
      apply Verdict.all_cons_congr (pair.kindIs (inTrailer 1) _)
      intro _
      apply Verdict.all_cons_congr (pair.kindIs (inTrailer 2) _)
      intro _
      apply Verdict.all_cons_congr (pair.kindIs (opens_one isOpen (position + 1)) _)
      intro isNext
      have inNext := opens_below version isOpen isNext (by simp)
      rw [pair.kindIs (inNext 1), pair.kindIs (inNext (-1))]
    · rfl

theorem calls_moved (version : grammar ∈ Grammar.versions)
    (pair : Relocated relocation place moved node other) (isOpen : node.isOpen = true) :
    Moved relocation (calls grammar place node) (calls grammar moved other) := by
  unfold calls
  rw [pair.alike.count]
  simp only [isNamedCall_moved version pair isOpen, isAttributeCall_moved version pair isOpen]
  apply Moved.append
  · apply moved_branch rfl
    · intro isCall
      exact markBelow_moved version pair isOpen (isNamedCall_parts isCall).2.1
        (by simp) 1 _
    · intro _
      exact .nil
  · apply moved_flatMap (List.forall₂_same.mpr fun position _ => rfl)
    rintro position _ rfl
    apply moved_branch rfl
    · intro isCall
      exact markBelow_moved version pair isOpen (isAttributeCall_parts isCall).2.1
        (by simp) 2 _
    · intro _
      exact .nil

/-! ## Constructs and terminals -/

/-- A construct that has a plan of its own, other than an expression, is open. -/
theorem isOpen_of_construct (version : grammar ∈ Grammar.versions) {kind : Element}
    (hasKind : node.kind = .ok kind) (notExpression : grammar.constructOf kind ≠ .expression)
    (notOther : grammar.constructOf kind ≠ .other) : node.isOpen = true := by
  have planless : ∀ grammar ∈ Grammar.versions, ∀ number ∈ Kind.closed,
      grammar.constructOf (.int number) = .expression ∨ grammar.constructOf (.int number) = .other := by
    decide
  apply Element.isOpen_of_not_closed
  · rintro value rfl
    rcases Element.entry_cases hasKind with ⟨index, _, isElement⟩ | ⟨char, rfl⟩
    · cases isElement
    · exact absurd (by simp [Grammar.constructOf, Element.isNumber, Element.isNumberIn]) notOther
  · apply List.any_eq_false.mpr
    intro number member isKind
    rw [Element.isOfKind_eq hasKind] at isKind
    rw [Grammar.constructOf_eq isKind] at notExpression notOther
    exact (planless grammar version number member).elim notExpression notOther

theorem expression_moved (pair : Relocated relocation place moved node other) (state : State) :
    Moved relocation (expression state place) (expression (state.relocate relocation) moved) := by
  unfold expression
  rw [pair.isMoved, State.awaited_contains_relocate]
  split
  · exact .cons (.arrive place) .nil
  · exact .nil

theorem construct_moved (version : grammar ∈ Grammar.versions)
    (pair : Relocated relocation place moved node other) (state : State) :
    Moved relocation (construct grammar state place node)
      (construct grammar (state.relocate relocation) moved other) := by
  unfold construct
  rw [pair.alike.kind]
  cases hasKind : node.kind with
  | error fault => exact moved_fail _ _
  | ok kind =>
      have isOpen := isOpen_of_construct version hasKind
      simp only
      generalize grammar.constructOf kind = sort at isOpen
      cases sort with
      | expression => exact expression_moved pair state
      | other => exact .nil
      | globalStatement => exact globalStatement_moved pair (isOpen (by decide) (by decide))
      | functionDefinition =>
          show Moved relocation _ (if state.functionLevel = -1 then _ else _)
          rw [ofConstruct]
          split
          · exact functionDefinition_moved pair (isOpen (by decide) (by decide))
          · exact .nil
      | decorated => exact decorated_moved version pair (isOpen (by decide) (by decide))
      | importFrom =>
          exact moduleName_moved version (pair.numbered (isOpen (by decide) (by decide)) 2) _ _
      | importName => exact moved_step rfl .nil
      | importedNames => exact importedNames_moved pair grammar state
      | dottedName => exact dottedName_moved pair (isOpen (by decide) (by decide)) state
      | expressionStatement =>
          exact expressionStatement_moved version pair (isOpen (by decide) (by decide))
      | classDefinition => exact classDefinition_moved pair (isOpen (by decide) (by decide))
      | power =>
          have powerOpen := isOpen (by decide) (by decide)
          show Moved relocation _ ((if state.assigning then _ else _) ++ _)
          rw [ofConstruct]
          apply Moved.append _ (calls_moved version pair powerOpen)
          split
          · exact moved_step rfl (target_moved version pair powerOpen)
          · exact .nil

theorem isOpen_of_terminal (isTerminal : node.isConstruct = .ok false) : node.isOpen = true := by
  apply Element.isOpen_of_not_closed
  · rintro value rfl
    unfold Element.isConstruct at isTerminal
    split at isTerminal
    next kind hasKind =>
      rcases Element.entry_cases hasKind with ⟨index, _, isElement⟩ | ⟨char, rfl⟩
      · cases isElement
      · cases isTerminal
    next => cases isTerminal
  · apply List.any_eq_false.mpr
    intro number member isKind
    have reached : ∀ number ∈ Kind.closed, Kind.firstConstruct ≤ number := by decide
    rw [Element.isConstruct_of_isOfKind isKind (reached number member)] at isTerminal
    cases isTerminal

theorem addMade_moved (made : Except Fault Item) : Moved relocation (addMade made) (addMade made) := by
  cases made with
  | error fault => exact moved_fail _ _
  | ok item => exact moved_step rfl .nil

section

variable {text otherText : Element} (alike : Element.Resembles text otherText)
include alike

theorem makePlain_resembles : Item.makePlain otherText = Item.makePlain text := by
  cases alike <;> rfl

theorem makeSymbol_resembles (label : Label) : Item.makeSymbol otherText label = Item.makeSymbol text label := by
  cases alike <;> rfl

theorem plainString_moved : Moved relocation (plainString text) (plainString otherText) := by
  cases alike with
  | refl =>
      cases text with
      | text value => exact addMade_moved _
      | null | bool value | int value | float value | node elements | list elements =>
          exact moved_fail _ _
  | closed isClosed lengths => exact moved_fail _ _
  | node kind each => exact moved_fail _ _

theorem string_moved (settings : Settings) :
    Moved relocation (string settings text) (string settings otherText) := by
  have plain : Moved relocation (plainString text) (plainString otherText) := plainString_moved alike
  unfold string
  split
  · cases alike with
    | refl =>
        cases text with
        | text value =>
            simp only
            split
            · exact moved_step rfl (moved_step rfl (moved_step rfl .nil))
            · exact plain
        | null | bool value | int value | float value | node elements | list elements =>
            exact moved_fail _ _
    | closed isClosed lengths => exact moved_fail _ _
    | node kind each => exact moved_fail _ _
  · exact plain

theorem markedSymbol_moved (place : Path) (label : Label) :
    Moved relocation (markedSymbol place text label)
      (markedSymbol (relocation.move place) otherText label) := by
  unfold markedSymbol
  rw [makeSymbol_resembles alike]
  exact .cons (.unmark place) (addMade_moved _)

theorem name_moved (settings : Settings) (state : State) (place : Path) :
    Moved relocation (name settings state place text)
      (name settings (state.relocate relocation) (relocation.move place) otherText) := by
  have sameWord : settings.grammar.isKeyword otherText = settings.grammar.isKeyword text := by
    unfold Grammar.isKeyword
    simp only [alike.isText]
  unfold name
  rw [State.labelAt?_relocate, sameWord, makePlain_resembles alike, makeSymbol_resembles alike]
  split
  · exact markedSymbol_moved alike place _
  · split <;> exact addMade_moved _

theorem token_moved (settings : Settings) (state : State) (place : Path) (kind : Element) :
    Moved relocation (token settings state place kind text)
      (token settings (state.relocate relocation) (relocation.move place) kind otherText) := by
  unfold token
  rw [State.labelAt?_relocate, makePlain_resembles alike]
  split
  · exact .nil
  · split
    · exact moved_step rfl .nil
    · split
      · exact string_moved alike settings
      · split
        · exact name_moved alike settings state place
        · split
          · exact markedSymbol_moved alike place _
          · split
            · exact moved_step rfl .nil
            · exact addMade_moved _

end

theorem terminal_moved (settings : Settings) (pair : Relocated relocation place moved node other)
    (isOpen : node.isOpen = true) (state : State) (number : Int) :
    Moved relocation (terminal settings state place node number)
      (terminal settings (state.relocate relocation) moved other number) := by
  have texts : Element.Matching _ (node.entry 1) (other.entry 1) := pair.entry_front isOpen 1
  have sameLine : (state.relocate relocation).line = state.line := rfl
  unfold terminal
  rw [pair.alike.kind, pair.isMoved, sameLine]
  rcases texts.cases with ⟨fault, isError, alsoError⟩ | ⟨text, otherText, isText, isOther, found⟩
  · rw [isError, alsoError]
    split
    · exact moved_fail _ _
    · exact moved_fail _ _
    next isEntry => cases isEntry
  · rw [isText, isOther]
    cases node.kind with
    | error fault => exact moved_fail _ _
    | ok kind =>
        simp only
        split
        · exact moved_step rfl .nil
        · split
          · exact moved_fail _ _
          · apply Moved.append _ (token_moved found.alike settings state place kind)
            split
            · exact moved_step rfl .nil
            · exact .nil

end Plan
end CrossRef
