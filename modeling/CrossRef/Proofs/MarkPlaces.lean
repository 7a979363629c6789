import CrossRef.Proofs.Navigation
import CrossRef.Proofs.PendingNotes

/-!
# The places that constructs mark

Every construct marks terminals close below it: its own children, those of the atom and the trailers
of a primary, those of the dotted name of a module or a decorator.  No construct marks a place twice.
A primary marks at most one of its names as assigned, and never one that it calls, since parentheses
follow what is called, and nothing or a subscript what is assigned to.
-/

namespace CrossRef

namespace Element

theorem kindIs_text (text : String) (route : List Int) (number : Nat) :
    (Element.text text).kindIs route number ≠ .ok true := by
  induction route generalizing text with
  | nil =>
      rw [Ne, kindIs_nil_eq_true, isOfKind_text]
      exact Bool.false_ne_true
  | cons position rest ih =>
      intro isKind
      cases found : (Element.text text).entry position with
      | error fault => simp [kindIs, asks, follow, found] at isKind
      | ok next =>
          rw [kindIs_of_entry found] at isKind
          rcases entry_cases found with ⟨place, _, isElement⟩ | ⟨char, rfl⟩
          · simp [elements] at isElement
          · exact ih char isKind

/-- A route that leads to something of a kind leads through an element. -/
theorem exists_element {node : Element} {position : Int} {route : List Int} {number : Nat}
    (isKind : node.kindIs (position :: route) number = .ok true) :
    ∃ place child, place? node.elements.length position = some place ∧
      node.elements[place]? = some child ∧ node.entry position = .ok child ∧
      child.kindIs route number = .ok true := by
  cases found : node.entry position with
  | error fault => simp [kindIs, asks, follow, found] at isKind
  | ok child =>
      rw [kindIs_of_entry found] at isKind
      rcases entry_cases found with ⟨place, isPlace, isElement⟩ | ⟨text, rfl⟩
      · exact ⟨place, child, isPlace, isElement, rfl, isKind⟩
      · exact absurd isKind (kindIs_text text route number)

/-- The kind at the end of a route is unique. -/
theorem kindIs_unique {node : Element} {route : List Int} {first second : Nat}
    (isFirst : node.kindIs route first = .ok true) (isSecond : node.kindIs route second = .ok true) :
    first = second := by
  unfold kindIs asks at isFirst isSecond
  split at isFirst
  next found followed =>
    rw [followed] at isSecond
    exact isNumber_unique (Except.ok.inj isFirst) (Except.ok.inj isSecond)
  next => cases isFirst

theorem locate_of_entry {path : Path} {node child : Element} {position : Int} {place : Nat}
    (found : node.entry position = .ok child)
    (isPlace : place? node.elements.length position = some place) (route : List Int) :
    locate path node (position :: route) = locate (path ++ [place]) child route := by
  rw [locate, found, isPlace]
  rfl

theorem place_forward {length place : Nat} (position : Nat)
    (isPlace : place? length position = some place) : place = position := by
  have isOffset := place_eq isPlace
  rw [if_neg (by omega)] at isOffset
  omega

/-- A route to a terminal of a part of a node gives the place of the part and the position in it. -/
theorem locate_terminal {path : Path} {node : Element} {position : Int} {later kind number : Nat}
    (isPart : node.kindIs [position] kind = .ok true)
    (isTerminal : node.kindIs [position, later] number = .ok true) :
    ∃ place terminal, place? node.elements.length position = some place ∧
      locate path node [position, later] = .ok (path ++ [place, later], terminal) := by
  rcases exists_element isPart with ⟨place, part, isPlace, _, found, _⟩
  rcases exists_element isTerminal with ⟨_, _, _, _, again, isBelow⟩
  rw [found] at again
  cases again
  rcases exists_element isBelow with ⟨below, terminal, belowPlace, _, foundBelow, _⟩
  refine ⟨place, terminal, isPlace, ?_⟩
  rw [locate_of_entry found isPlace, locate_of_entry foundBelow belowPlace, locate,
    place_forward later belowPlace]
  simp

theorem numbered_ascending (node : Element) (start : Nat) :
    (node.numbered start).Pairwise fun first second => first.1 < second.1 := by
  have ascending : (node.elements.zipIdx.map Prod.snd).Pairwise (· < ·) := by
    rw [List.zipIdx_map_snd]
    exact List.pairwise_lt_range'
  rw [numbered, List.pairwise_map]
  exact (List.pairwise_map.mp ascending).sublist (List.drop_sublist start _)

/-- The ways from a construct to the terminals that it can mark. -/
inductive Labels (grammar : Grammar) (node : Element) : Construct → Path → Prop where
  | globalName (position : Nat) : Labels grammar node .globalStatement [position]
  | functionName (position : Nat) : Labels grammar node .functionDefinition [position]
  | className (position : Nat) : Labels grammar node .classDefinition [position]
  | moduleName (index : Nat) : Labels grammar node .dottedName [index + 1]
  | primary {part : Element} {place : Nat} (isPart : node.elements[place]? = some part)
      (isKind : part.isOfKindIn [grammar.atom, grammar.trailer] = true) (position : Nat) :
      Labels grammar node .power [place, position]
  | importedModule {dotted : Element} {place : Nat} (isDotted : node.elements[place]? = some dotted)
      (isKind : dotted.isOfKind grammar.dottedName = true) (position : Nat) :
      Labels grammar node .importFrom [place, position]
  | decorator {list decorator dotted : Element} {place : Nat}
      (isList : node.elements[1]? = some list) (listKind : list.isOfKind grammar.decorators = true)
      (isDecorator : list.elements[place]? = some decorator)
      (decoratorKind : decorator.isOfKind grammar.decorator = true)
      (isDotted : decorator.elements[2]? = some dotted)
      (dottedKind : dotted.isOfKind grammar.dottedName = true) (position : Nat) :
      Labels grammar node .decorated [1, place, 2, position]

theorem Labels.ne_nil {grammar : Grammar} {node : Element} {construct : Construct} {way : Path}
    (labels : node.Labels grammar construct way) : way ≠ [] := by
  cases labels <;> exact List.cons_ne_nil _ _

end Element

namespace Step

/-- The place that a step notes a mark for. -/
def marked? : Step → Option Path
  | .mark place _ _ => some place
  | _ => none

/-- Whether a step fails in every state. -/
def isDoomed : Step → Bool
  | .fail _ | .demand (.ok false) | .demand (.error _) => true
  | _ => false

end Step

namespace Plan

/-- The places that a plan notes marks for, up to the first step that is bound to fail. -/
def markPlaces : Plan → List Path
  | [] => []
  | step :: rest => if step.isDoomed then [] else step.marked?.toList ++ markPlaces rest

/-- A plan notes marks only for places of a region, and at most one for each. -/
structure Marks (plan : Plan) (region : Path → Prop) : Prop where
  once : plan.markPlaces.Nodup
  within : ∀ place ∈ plan.markPlaces, region place

section

variable {plan first second : Plan} {region left right : Path → Prop}

theorem Marks.imp (marks : plan.Marks region) (larger : ∀ place, region place → left place) :
    plan.Marks left :=
  ⟨marks.once, fun place member => larger place (marks.within place member)⟩

theorem marks_nil : Marks [] region :=
  ⟨List.nodup_nil, fun _ member => nomatch member⟩

theorem marks_fail (fault : Fault) : Marks [.fail fault] region :=
  ⟨List.nodup_nil, fun _ member => nomatch member⟩

theorem marks_mark {place : Path} {terminal : Element} {mark : Mark} (inRegion : region place) :
    Marks [.mark place terminal mark] region := by
  refine ⟨List.nodup_singleton place, ?_⟩
  intro other member
  rw [List.mem_singleton.mp member]
  exact inRegion

theorem markPlaces_append (first second : Plan) :
    markPlaces (first ++ second) =
      markPlaces first ++ if first.any Step.isDoomed then [] else markPlaces second := by
  induction first with
  | nil => rfl
  | cons step rest ih =>
      cases doomed : step.isDoomed with
      | true => simp [markPlaces, doomed]
      | false => simp [markPlaces, doomed, ih]

theorem mem_markPlaces {place : Path} {terminal : Element} {mark : Mark}
    (sound : plan.any Step.isDoomed = false) (isStep : .mark place terminal mark ∈ plan) :
    place ∈ plan.markPlaces := by
  induction plan with
  | nil => cases isStep
  | cons step rest ih =>
      simp only [List.any_cons, Bool.or_eq_false_iff] at sound
      rw [markPlaces, if_neg (by simp [sound.1]), List.mem_append]
      rcases List.mem_cons.mp isStep with rfl | later
      · exact Or.inl (List.mem_singleton_self place)
      · exact Or.inr (ih sound.2 later)

theorem markPlaces_append_sublist (first second : Plan) :
    (markPlaces (first ++ second)).Sublist (markPlaces first ++ markPlaces second) := by
  rw [markPlaces_append]
  apply List.Sublist.append_left
  split
  · exact List.nil_sublist _
  · exact List.Sublist.refl _

theorem Marks.append (early : first.Marks left) (late : second.Marks right)
    (apart : ∀ place, left place → ¬ right place) :
    Marks (first ++ second) fun place => left place ∨ right place := by
  have within := markPlaces_append_sublist first second
  constructor
  · apply List.Nodup.sublist within
    apply List.nodup_append.mpr
    refine ⟨early.once, late.once, ?_⟩
    rintro place inFirst other inSecond rfl
    exact apart place (early.within place inFirst) (late.within place inSecond)
  · intro place member
    rcases List.mem_append.mp (within.subset member) with inFirst | inSecond
    · exact Or.inl (early.within place inFirst)
    · exact Or.inr (late.within place inSecond)

theorem marks_step {step : Step} (notMark : step.marked? = none) (marks : plan.Marks region) :
    Marks (step :: plan) region := by
  cases doomed : step.isDoomed with
  | true => exact ⟨by simp [markPlaces, doomed], by simp [markPlaces, doomed]⟩
  | false =>
      have same : markPlaces (step :: plan) = plan.markPlaces := by simp [markPlaces, doomed, notMark]
      exact ⟨same ▸ marks.once, same ▸ marks.within⟩

/-- What follows a demand is noted only if the demand is met. -/
theorem marks_demand {verdict : Verdict} (met : verdict = .ok true → plan.Marks region) :
    Marks (.demand verdict :: plan) region := by
  rcases verdict with fault | _ | _
  · exact ⟨List.nodup_nil, fun _ member => nomatch member⟩
  · exact ⟨List.nodup_nil, fun _ member => nomatch member⟩
  · exact marks_step rfl (met rfl)

theorem marks_branch {verdict : Verdict} (ifYes : verdict = .ok true → first.Marks region)
    (ifNo : verdict = .ok false → second.Marks region) : Marks (branch verdict first second) region := by
  rcases verdict with fault | _ | _
  · exact marks_fail fault
  · exact ifNo rfl
  · exact ifYes rfl

theorem marks_flatMap {Entry : Type} {entries : List Entry} {plans : Entry → Plan}
    {regions : Entry → Path → Prop} (each : ∀ entry ∈ entries, (plans entry).Marks (regions entry))
    (apart : entries.Pairwise fun one other => ∀ place, regions one place → ¬ regions other place) :
    Marks (entries.flatMap plans) fun place => ∃ entry ∈ entries, regions entry place := by
  induction entries with
  | nil => exact marks_nil
  | cons entry rest ih =>
      rw [List.pairwise_cons] at apart
      rw [List.flatMap_cons]
      have here := each entry List.mem_cons_self
      have later := ih (fun other member => each other (List.mem_cons_of_mem _ member)) apart.2
      apply (here.append later _).imp
      · rintro place (inEntry | ⟨other, member, inOther⟩)
        · exact ⟨entry, List.mem_cons_self, inEntry⟩
        · exact ⟨other, List.mem_cons_of_mem _ member, inOther⟩
      · rintro place inEntry ⟨other, member, inOther⟩
        exact apart.1 other member place inEntry inOther

/-- A plan that notes no marks at all. -/
theorem marks_of_none (none : ∀ step ∈ plan, step.marked? = none) : plan.Marks region := by
  induction plan with
  | nil => exact marks_nil
  | cons step rest ih =>
      apply marks_step (none step List.mem_cons_self)
      exact ih fun later member => none later (List.mem_cons_of_mem _ member)

end

/-! ## The constructs -/

variable {grammar : Grammar} {path : Path} {node : Element} {region : Path → Prop}

theorem marks_of_aims {grammar : Grammar} {plan : Plan} (aims : Aims grammar path node [] plan) :
    plan.Marks region := by
  apply marks_of_none
  intro step member
  cases step with
  | mark place terminal mark => nomatch (aims _ member).1
  | fail | demand | await | openFunction | unmark | arrive | settle | beginImport | countImports
  | finishImport | indent | dedent | turn | add | finish => rfl

theorem markAt_marks {route : List Int} {mark : Mark}
    (inRegion : ∀ place terminal, Element.locate path node route = .ok (place, terminal) →
      region place) : (markAt path node route mark).Marks region := by
  unfold markAt
  split
  next place terminal located => exact marks_mark (inRegion place terminal located)
  next => exact marks_fail _

/-- A route of one position leads to a child. -/
theorem markAt_child (position : Int) (mark : Mark)
    (inRegion : ∀ place, region (path ++ [place])) : (markAt path node [position] mark).Marks region := by
  apply markAt_marks
  intro place terminal located
  rw [Element.locate] at located
  split at located
  next => cases located
  next =>
    cases located
    exact inRegion _

theorem markAll_marks (mark : Mark) :
    (markAll path node mark).Marks fun place => ∃ index, place = path ++ [index + 1] := by
  have each : Marks ((node.numbered 1).flatMap fun entry =>
      [.mark (path ++ [entry.1]) entry.2 mark]) fun place =>
        ∃ entry ∈ node.numbered 1, place = path ++ [entry.1] := by
    apply marks_flatMap
    · intro entry _
      exact marks_mark rfl
    · apply (node.numbered_ascending 1).imp
      rintro one other before place rfl same
      have equal : one.1 = other.1 := by simpa using same
      omega
  rw [← List.map_eq_flatMap] at each
  apply each.imp
  rintro place ⟨⟨position, terminal⟩, member, rfl⟩
  rcases Nat.exists_eq_add_of_le' (Element.mem_numbered member).1 with ⟨index, rfl⟩
  exact ⟨index, rfl⟩

theorem globalStatement_marks :
    (globalStatement path node).Marks fun place => ∃ position, place = path ++ [position] := by
  have each : (globalStatement path node).Marks fun place =>
      ∃ entry ∈ (node.numbered 2).filter fun entry => entry.1 % 2 = 0,
        place = path ++ [entry.1] := by
    apply marks_flatMap
    · intro entry _
      exact marks_demand fun _ => marks_mark rfl
    · apply ((node.numbered_ascending 2).sublist List.filter_sublist).imp
      rintro one other before place rfl same
      have equal : one.1 = other.1 := by simpa using same
      omega
  apply each.imp
  rintro place ⟨entry, _, isPlace⟩
  exact ⟨entry.1, isPlace⟩

theorem functionDefinition_marks :
    (functionDefinition grammar path node).Marks fun place => ∃ position, place = path ++ [position] := by
  have named (position : Int) :
      (functionName path node position).Marks fun place => ∃ position, place = path ++ [position] :=
    marks_demand fun _ => markAt_child _ _ fun place => ⟨place, rfl⟩
  exact marks_step rfl (marks_branch (fun _ => named 2) fun _ => named 1)

theorem classDefinition_marks :
    (classDefinition path node).Marks fun place => ∃ position, place = path ++ [position] :=
  marks_demand fun _ => markAt_child _ _ fun place => ⟨place, rfl⟩

theorem dottedName_marks (state : State) :
    (dottedName state path node).Marks fun place =>
      state.importing = true ∧ ∃ index, place = path ++ [index + 1] := by
  unfold dottedName
  split
  next importing =>
    split
    next =>
      have finish : Marks [.finishImport] fun _ => False := marks_step rfl marks_nil
      apply ((markAll_marks .inclusion).append finish fun _ _ => id).imp
      rintro place (inName | nothing)
      · exact ⟨importing, inName⟩
      · exact nothing.elim
    next => exact marks_fail _
  next => exact marks_nil

theorem moduleName_marks (sort : String) (entries : List (Nat × Element))
    (numbered : ∀ entry ∈ entries, entry ∈ node.numbered 2) :
    (moduleName grammar path sort entries).Marks fun place =>
      ∃ way, place = path ++ way ∧ node.Labels grammar .importFrom way := by
  induction entries with
  | nil => exact marks_fail _
  | cons entry rest ih =>
      rcases entry with ⟨position, child⟩
      unfold moduleName
      split
      next => exact marks_fail _
      next kind hasKind =>
        split
        next =>
          apply ih
          intro later member
          exact numbered later (List.mem_cons_of_mem _ member)
        next =>
          split
          next isDotted =>
            have isChild := (Element.mem_numbered (numbered _ List.mem_cons_self)).2
            have isKind := (Element.isOfKind_eq hasKind grammar.dottedName).trans isDotted
            apply (markAll_marks .inclusion).imp
            rintro place ⟨index, rfl⟩
            exact ⟨[position, index + 1], by simp, .importedModule isChild isKind (index + 1)⟩
          next => exact marks_nil

theorem decoratorName_marks (dotted : Element) :
    (decoratorName path dotted).Marks fun place => ∃ position, place = path ++ [position] := by
  have called : (markAt path dotted [-1] .call).Marks fun place =>
      ∃ position, place = path ++ [position] :=
    markAt_child _ _ fun place => ⟨place, rfl⟩
  unfold decoratorName
  split
  next => exact marks_fail _
  next =>
    split
    next => exact marks_fail _
    next =>
      split
      next => exact called
      next => exact marks_demand fun _ => marks_branch (fun _ => marks_nil) fun _ => called

theorem decorator_marks :
    (decorator grammar path node).Marks fun place =>
      ∃ dotted position, node.isOfKind grammar.decorator = true ∧ node.elements[2]? = some dotted ∧
        dotted.isOfKind grammar.dottedName = true ∧ place = path ++ [2, position] := by
  refine marks_demand fun isDecorator => marks_demand fun _ => marks_demand fun isDotted => ?_
  rcases Element.exists_element isDotted with ⟨place, dotted, isPlace, isElement, found, isKind⟩
  simp only [found]
  apply (decoratorName_marks dotted).imp
  rintro _ ⟨position, rfl⟩
  rw [Element.place_forward 2 isPlace] at isElement
  exact ⟨dotted, position, Element.kindIs_nil_eq_true.mp isDecorator, isElement,
    Element.kindIs_nil_eq_true.mp isKind, by simp⟩

theorem decorated_marks :
    (decorated grammar path node).Marks fun place =>
      ∃ way, place = path ++ way ∧ node.Labels grammar .decorated way := by
  refine marks_branch (fun isDecorated => ?_) fun _ => marks_nil
  have isList := Verdict.all_eq_true.mp isDecorated _ List.mem_cons_self
  rcases Element.exists_element isList with ⟨place, list, isPlace, isElement, found, isKind⟩
  rw [Element.place_forward 1 isPlace] at isElement
  rw [found]
  have each : Marks ((list.numbered 1).flatMap fun entry =>
      decorator grammar (path ++ [1, entry.1]) entry.2) fun place =>
        ∃ entry ∈ list.numbered 1, ∃ dotted position, entry.2.isOfKind grammar.decorator = true ∧
          entry.2.elements[2]? = some dotted ∧ dotted.isOfKind grammar.dottedName = true ∧
          place = path ++ [1, entry.1] ++ [2, position] := by
    apply marks_flatMap
    · intro entry _
      exact decorator_marks
    · apply (list.numbered_ascending 1).imp
      rintro one other before place ⟨_, left, _, _, _, rfl⟩ ⟨_, right, _, _, _, same⟩
      have equal : one.1 = other.1 ∧ left = right := by simpa using same
      omega
  apply each.imp
  rintro _ ⟨⟨position, child⟩, member, dotted, last, decoratorKind, isDotted, dottedKind, rfl⟩
  exact ⟨[1, position, 2, last], by simp, .decorator isElement (Element.kindIs_nil_eq_true.mp isKind)
    (Element.mem_numbered member).2 decoratorKind isDotted dottedKind last⟩

/-! ## Primaries -/

theorem markAt_part {position : Int} {kind number : Nat} {mark : Mark} (later : Nat)
    (isPart : node.kindIs [position] kind = .ok true)
    (isTerminal : node.kindIs [position, later] number = .ok true)
    (inRegion : ∀ place, Element.place? node.elements.length position = some place →
      region (path ++ [place, later])) : (markAt path node [position, later] mark).Marks region := by
  rcases Element.locate_terminal isPart isTerminal with ⟨place, terminal, isPlace, located⟩
  apply markAt_marks
  intro found _ again
  rw [located] at again
  cases again
  exact inRegion place isPlace

end Plan

/-- The ways from a primary to the names that it calls. -/
inductive CalledAt (grammar : Grammar) (node : Element) : Path → Prop where
  | name (isCall : isNamedCall grammar node node.elements.length = .ok true) :
      CalledAt grammar node [1, 1]
  | member (position : Nat)
      (isCall : isAttributeCall grammar node position node.elements.length = .ok true) :
      CalledAt grammar node [position, 2]

/-- The ways from a primary to the name that is assigned to, if the primary is. -/
inductive AssignedAt (grammar : Grammar) (node : Element) : Path → Prop where
  | bare (short : node.elements.length = 2) (isAtom : node.kindIs [1] grammar.atom = .ok true)
      (isName : node.kindIs [1, 1] Kind.name = .ok true) : AssignedAt grammar node [1, 1]
  | subscripted (isSubscripted : Plan.isSubscriptedName grammar node = .ok true) :
      AssignedAt grammar node [1, 1]
  | lastMember {place : Nat} (isPlace : Element.place? node.elements.length (-1) = some place)
      (isAttribute : Plan.isAttribute grammar node (-1) = .ok true) : AssignedAt grammar node [place, 2]
  | elementOfMember {place : Nat} (isPlace : Element.place? node.elements.length (-2) = some place)
      (isAttribute : Plan.isAttribute grammar node (-2) = .ok true)
      (isSubscripted : Plan.endsInSubscript grammar node = .ok true) : AssignedAt grammar node [place, 2]

section

variable {grammar : Grammar} {node : Element} {way : Path}

theorem isNamedCall_parts {length : Int} (isCall : isNamedCall grammar node length = .ok true) :
    3 ≤ length ∧ node.kindIs [1] grammar.atom = .ok true ∧ node.kindIs [1, 1] Kind.name = .ok true ∧
      node.kindIs [2, 1] Kind.leftParenthesis = .ok true := by
  unfold isNamedCall at isCall
  split at isCall
  next => cases isCall
  next => cases isCall
  next =>
    split at isCall
    next => cases isCall
    next long =>
      have holds := Verdict.all_eq_true.mp isCall
      exact ⟨by omega, holds _ (by simp), holds _ (by simp), holds _ (by simp)⟩

theorem isAttributeCall_parts {position length : Int}
    (isCall : isAttributeCall grammar node position length = .ok true) :
    position < length - 1 ∧ node.kindIs [position] grammar.trailer = .ok true ∧
      node.kindIs [position, 2] Kind.name = .ok true ∧
      node.kindIs [position + 1, 1] Kind.leftParenthesis = .ok true := by
  unfold isAttributeCall at isCall
  split at isCall
  next => cases isCall
  next => cases isCall
  next =>
    split at isCall
    next before =>
      have holds := Verdict.all_eq_true.mp isCall
      exact ⟨before, holds _ (by simp), holds _ (by simp), holds _ (by simp)⟩
    next => cases isCall

theorem isSubscriptedName_parts (isSubscripted : Plan.isSubscriptedName grammar node = .ok true) :
    node.kindIs [1] grammar.atom = .ok true ∧ node.kindIs [1, 1] Kind.name = .ok true ∧
      node.kindIs [2, 1] Kind.leftBracket = .ok true := by
  have holds := Verdict.all_eq_true.mp isSubscripted
  exact ⟨holds _ (by simp), holds _ (by simp), holds _ (by simp)⟩

theorem isAttribute_parts {position : Int}
    (isAttribute : Plan.isAttribute grammar node position = .ok true) :
    node.kindIs [position] grammar.trailer = .ok true ∧
      node.kindIs [position, 2] Kind.name = .ok true := by
  have holds := Verdict.all_eq_true.mp isAttribute
  exact ⟨holds _ (by simp), holds _ (by simp)⟩

theorem endsInSubscript_parts (isSubscripted : Plan.endsInSubscript grammar node = .ok true) :
    node.kindIs [-1, 1] Kind.leftBracket = .ok true :=
  Verdict.all_eq_true.mp isSubscripted _ (by simp)

theorem labels_of_part {position : Int} {kind : Nat} (isPart : node.kindIs [position] kind = .ok true)
    (isKind : kind ∈ [grammar.atom, grammar.trailer]) {place : Nat}
    (isPlace : Element.place? node.elements.length position = some place) (later : Nat) :
    node.Labels grammar .power [place, later] := by
  rcases Element.exists_element isPart with ⟨found, part, isFound, isElement, _, hasKind⟩
  rw [isPlace] at isFound
  cases isFound
  refine .primary isElement ?_ later
  exact List.any_eq_true.mpr ⟨kind, isKind, Element.kindIs_nil_eq_true.mp hasKind⟩

/-- A place counted from the front is found there. -/
theorem place_of_kindIs {kind : Nat} (place : Nat)
    (isPart : node.kindIs [(place : Int)] kind = .ok true) :
    Element.place? node.elements.length (place : Int) = some place := by
  rcases Element.exists_element isPart with ⟨found, _, isFound, _⟩
  rw [isFound, Element.place_forward place isFound]

theorem CalledAt.labels (called : CalledAt grammar node way) : node.Labels grammar .power way := by
  cases called with
  | name isCall =>
      have isAtom := (isNamedCall_parts isCall).2.1
      exact labels_of_part isAtom List.mem_cons_self (place_of_kindIs 1 isAtom) 1
  | member position isCall =>
      have isTrailer := (isAttributeCall_parts isCall).2.1
      exact labels_of_part isTrailer (by simp) (place_of_kindIs position isTrailer) 2

theorem AssignedAt.labels (assigned : AssignedAt grammar node way) :
    node.Labels grammar .power way := by
  cases assigned with
  | bare _ isAtom _ => exact labels_of_part isAtom List.mem_cons_self (place_of_kindIs 1 isAtom) 1
  | subscripted isSubscripted =>
      have isAtom := (isSubscriptedName_parts isSubscripted).1
      exact labels_of_part isAtom List.mem_cons_self (place_of_kindIs 1 isAtom) 1
  | lastMember isPlace isAttribute =>
      exact labels_of_part (isAttribute_parts isAttribute).1 (by simp) isPlace 2
  | elementOfMember isPlace isAttribute isSubscripted =>
      exact labels_of_part (isAttribute_parts isAttribute).1 (by simp) isPlace 2

/-- What is assigned to is not called: no parentheses follow it. -/
theorem AssignedAt.not_calledAt (assigned : AssignedAt grammar node way) :
    ¬ CalledAt grammar node way := by
  intro called
  cases assigned with
  | bare short _ _ =>
      cases called with
      | name isCall =>
          have long := (isNamedCall_parts isCall).1
          omega
  | subscripted isSubscripted =>
      cases called with
      | name isCall =>
          have parenthesis := (isNamedCall_parts isCall).2.2.2
          have bracket := (isSubscriptedName_parts isSubscripted).2.2
          exact absurd (Element.kindIs_unique parenthesis bracket) (by decide)
  | lastMember isPlace isAttribute =>
      cases called with
      | member position isCall =>
          have before := (isAttributeCall_parts isCall).1
          have fromEnd := Element.place_eq isPlace
          rw [if_pos (by decide)] at fromEnd
          omega
  | elementOfMember isPlace isAttribute isSubscripted =>
      cases called with
      | member position isCall =>
          -- The trailer behind would start with a parenthesis and with a bracket.
          have parenthesis := (isAttributeCall_parts isCall).2.2.2
          have bracket := endsInSubscript_parts isSubscripted
          rcases Element.exists_element parenthesis with ⟨behind, child, isBehind, isChild, _, isCalled⟩
          rcases Element.exists_element bracket with ⟨last, other, isLast, isOther, _, isBracket⟩
          have same : behind = last := by
            have fromEnd := Element.place_eq isPlace
            have fromFront := Element.place_eq isBehind
            have atEnd := Element.place_eq isLast
            rw [if_pos (by decide)] at fromEnd atEnd
            rw [if_neg (by omega)] at fromFront
            omega
          rw [same, isOther] at isChild
          cases isChild
          exact absurd (Element.kindIs_unique isCalled isBracket) (by decide)

end

namespace Plan

variable {grammar : Grammar} {path : Path} {node : Element}

theorem calls_marks :
    (calls grammar path node).Marks fun place =>
      ∃ way, place = path ++ way ∧ CalledAt grammar node way := by
  have name : Marks (branch (isNamedCall grammar node node.elements.length)
      (markAt path node [1, 1] .call) []) fun place =>
        place = path ++ [1, 1] ∧ isNamedCall grammar node node.elements.length = .ok true := by
    refine marks_branch (fun isCall => ?_) fun _ => marks_nil
    rcases isNamedCall_parts isCall with ⟨_, isAtom, isName, _⟩
    apply markAt_part 1 isAtom isName
    intro place isPlace
    rw [Element.place_forward 1 isPlace]
    exact ⟨rfl, isCall⟩
  have attributes : Marks ((List.range' 1 (node.elements.length - 2)).flatMap fun (position : Nat) =>
      branch (isAttributeCall grammar node position node.elements.length)
        (markAt path node [position, 2] .call) []) fun place =>
          ∃ position ∈ List.range' 1 (node.elements.length - 2), place = path ++ [position, 2] ∧
            isAttributeCall grammar node position node.elements.length = .ok true := by
    apply marks_flatMap
    · intro position _
      refine marks_branch (fun isCall => ?_) fun _ => marks_nil
      rcases isAttributeCall_parts isCall with ⟨_, isTrailer, isName, _⟩
      apply markAt_part 2 isTrailer isName
      intro place isPlace
      rw [Element.place_forward position isPlace]
      exact ⟨rfl, isCall⟩
    · apply List.Pairwise.imp _ List.pairwise_lt_range'
      rintro one other before place ⟨rfl, _⟩ ⟨same, _⟩
      have equal : one = other := by simpa using same
      omega
  apply (name.append attributes _).imp
  · rintro place (⟨rfl, isCall⟩ | ⟨position, _, rfl, isCall⟩)
    · exact ⟨_, rfl, .name isCall⟩
    · exact ⟨_, rfl, .member position isCall⟩
  · rintro place ⟨rfl, _⟩ ⟨position, _, same, _⟩
    simp at same

theorem target_marks (isTarget : grammar.test ∈ grammar.targets) :
    (target grammar path node).Marks fun place =>
      ∃ way, place = path ++ way ∧ AssignedAt grammar node way := by
  refine marks_branch (fun isBare => ?_) fun _ => marks_branch (fun isSubscripted => ?_) fun _ =>
    marks_branch (fun endsInAttribute => ?_) fun _ => marks_branch (fun endsInElement => ?_) fun _ =>
      marks_nil
  · have short : node.elements.length = 2 := by
      simpa using Verdict.all_eq_true.mp isBare _ List.mem_cons_self
    have isAtom := Verdict.all_eq_true.mp isBare (node.kindIs [1] grammar.atom) (by simp)
    refine marks_branch (fun isName => ?_) fun _ => marks_branch (fun _ => ?_) fun _ => marks_nil
    · have named := Verdict.all_eq_true.mp isName (node.kindIs [1, 1] Kind.name) (by simp)
      apply markAt_part 1 isAtom named
      intro place isPlace
      rw [Element.place_forward 1 isPlace]
      exact ⟨_, rfl, .bare short isAtom named⟩
    · split
      next => exact marks_fail _
      next members _ =>
        have aims : Aims grammar (path ++ [1, 2]) members []
            (awaitMembers [grammar.test] (path ++ [1, 2]) (members.numbered 1)) := by
          apply awaitMembers_aims _ _ fun _ => id
          intro kind member
          rw [List.mem_singleton.mp member]
          exact isTarget
        exact marks_of_aims aims
  · rcases isSubscriptedName_parts isSubscripted with ⟨isAtom, isName, _⟩
    apply markAt_part 1 isAtom isName
    intro place isPlace
    rw [Element.place_forward 1 isPlace]
    exact ⟨_, rfl, .subscripted isSubscripted⟩
  · have isAttribute := Verdict.all_eq_true.mp endsInAttribute (isAttribute grammar node (-1)) (by simp)
    rcases isAttribute_parts isAttribute with ⟨isTrailer, isName⟩
    apply markAt_part 2 isTrailer isName
    intro place isPlace
    exact ⟨_, rfl, .lastMember isPlace isAttribute⟩
  · have holds := Verdict.all_eq_true.mp endsInElement
    have isAttribute := holds (isAttribute grammar node (-2)) (by simp)
    have isSubscripted := holds (endsInSubscript grammar node) (by simp)
    rcases isAttribute_parts isAttribute with ⟨isTrailer, isName⟩
    apply markAt_part 2 isTrailer isName
    intro place isPlace
    exact ⟨_, rfl, .elementOfMember isPlace isAttribute isSubscripted⟩

theorem power_marks (isTarget : grammar.test ∈ grammar.targets) (state : State) :
    (ofConstruct grammar state path node .power).Marks fun place =>
      ∃ way, place = path ++ way ∧ node.Labels grammar .power way := by
  have assigns : Marks (if state.assigning then .settle :: target grammar path node else [])
      fun place => ∃ way, place = path ++ way ∧ AssignedAt grammar node way := by
    split
    · exact marks_step rfl (target_marks isTarget)
    · exact marks_nil
  apply (assigns.append calls_marks _).imp
  · rintro place (⟨way, isPlace, assigned⟩ | ⟨way, isPlace, called⟩)
    · exact ⟨way, isPlace, assigned.labels⟩
    · exact ⟨way, isPlace, called.labels⟩
  · rintro place ⟨way, rfl, assigned⟩ ⟨other, same, called⟩
    rw [← List.append_cancel_left same] at called
    exact assigned.not_calledAt called

/-- What a construct marks, and that it marks nothing twice.  A dotted name marks its parts only while
modules are imported. -/
theorem ofConstruct_marks (isTarget : grammar.test ∈ grammar.targets) (state : State)
    (construct : Construct) :
    (ofConstruct grammar state path node construct).Marks fun place =>
      (construct = .dottedName → state.importing = true) ∧
        ∃ way, place = path ++ way ∧ node.Labels grammar construct way := by
  -- Only a dotted name asks for the import statement around it.
  have free {sort : Construct} {plan : Plan} (notDotted : sort ≠ .dottedName)
      (marks : plan.Marks fun place => ∃ way, place = path ++ way ∧ node.Labels grammar sort way) :
      plan.Marks fun place => (sort = .dottedName → state.importing = true) ∧
        ∃ way, place = path ++ way ∧ node.Labels grammar sort way :=
    marks.imp fun _ marked => ⟨fun isDotted => absurd isDotted notDotted, marked⟩
  cases construct with
  | globalStatement =>
      apply free (by decide)
      apply globalStatement_marks.imp
      rintro place ⟨position, rfl⟩
      exact ⟨_, rfl, .globalName position⟩
  | functionDefinition =>
      simp only [ofConstruct]
      split
      · apply free (by decide)
        apply functionDefinition_marks.imp
        rintro place ⟨position, rfl⟩
        exact ⟨_, rfl, .functionName position⟩
      · exact marks_nil
  | decorated => exact free (by decide) decorated_marks
  | importFrom => exact free (by decide) (moduleName_marks _ _ fun _ => id)
  | dottedName =>
      apply (dottedName_marks state).imp
      rintro place ⟨importing, index, rfl⟩
      exact ⟨fun _ => importing, _, rfl, .moduleName index⟩
  | classDefinition =>
      apply free (by decide)
      apply classDefinition_marks.imp
      rintro place ⟨position, rfl⟩
      exact ⟨_, rfl, .className position⟩
  | power => exact free (by decide) (power_marks isTarget state)
  | importName | importedNames | expressionStatement | expression | other =>
      exact marks_of_aims (ofConstruct_aims isTarget state _)

theorem construct_marks (isTarget : grammar.test ∈ grammar.targets) (state : State) (path : Path)
    (node : Element) :
    (construct grammar state path node).Marks fun place =>
      (node.constructIn grammar = .dottedName → state.importing = true) ∧
        ∃ way, place = path ++ way ∧ node.Labels grammar (node.constructIn grammar) way := by
  cases hasKind : node.kind with
  | error fault =>
      simp only [construct, hasKind]
      exact marks_fail fault
  | ok kind =>
      rw [construct_eq hasKind]
      exact ofConstruct_marks isTarget state _

end Plan

end CrossRef
