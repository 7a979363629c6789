import CrossRef.Proofs.Navigation
import CrossRef.Proofs.Terminals

/-!
# What constructs note down

Constructs note marks and awaited expressions for places below them, and the nodes at these places
use the notes up.  A plan that only notes things comes off if it marks terminals that can hold a
mark, each once, and none of them has one yet; all it changes are the notes for the places it
names.  `Clears` says the converse of a walk through part of a tree: afterwards nothing is noted for
the places in that part, and the notes for all others are as they were.
-/

namespace CrossRef

namespace State

@[simp]
theorem labelAt?_append (state : State) (path other : Path) (label : Label) :
    ({ state with marks := state.marks ++ [(path, label)] } : State).labelAt? other =
      (state.labelAt? other).or (if other = path then some label else none) := by
  unfold labelAt?
  rw [List.lookup_append]
  by_cases same : other = path
  · simp [same]
  · have differs : (other == path) = false := by simpa using same
    simp [List.lookup_cons, same, differs]

@[simp]
theorem labelAt?_dropMark (state : State) (path other : Path) :
    (state.dropMark path).labelAt? other = if other = path then none else state.labelAt? other := by
  unfold dropMark labelAt?
  induction state.marks with
  | nil => simp
  | cons entry rest ih =>
      rcases entry with ⟨place, label⟩
      by_cases dropped : place = path
      · rw [List.filter_cons_of_neg (by simpa using dropped), ih]
        by_cases same : other = path
        · simp [same]
        · have differs : (other == place) = false := by simpa [dropped] using same
          simp [same, List.lookup_cons, differs]
      · rw [List.filter_cons_of_pos (by simpa using dropped), List.lookup_cons, List.lookup_cons, ih]
        cases matched : other == place with
        | true =>
            have isPlace : other = place := by simpa using matched
            simp [isPlace, dropped]
        | false => rfl

theorem dropMark_of_unlabelled {state : State} {path : Path} (unlabelled : state.labelAt? path = none) :
    state.dropMark path = state := by
  have kept : state.marks.filter (·.1 ≠ path) = state.marks := by
    apply List.filter_eq_self.mpr
    intro entry member
    unfold labelAt? at unlabelled
    have differs := List.lookup_eq_none_iff.mp unlabelled entry member
    simp only [bne_iff_ne, ne_eq] at differs
    simp only [ne_eq, decide_not, Bool.not_eq_eq_eq_not, Bool.not_true, decide_eq_false_iff_not]
    exact fun same => differs same.symm
  unfold dropMark
  rw [kept]

theorem mem_await (state : State) (path other : Path) :
    other ∈ (state.await path).awaited ↔ other ∈ state.awaited ∨ other = path := by
  unfold await
  split
  next known =>
    constructor
    · exact Or.inl
    · rintro (member | rfl)
      · exact member
      · simpa using known
  · simp

@[simp]
theorem labelAt?_await (state : State) (path other : Path) :
    (state.await path).labelAt? other = state.labelAt? other := by
  unfold await
  split <;> rfl

end State

namespace Plan

/-- A plan for the construct at a path that does nothing but note the given marks and awaited
expressions for places below it. -/
inductive Notes (path : Path) : Plan → List (Path × Mark) → List Path → Prop where
  | nil : Notes path [] [] []
  | demand {plan : Plan} {marks : List (Path × Mark)} {awaited : List Path}
      (rest : Notes path plan marks awaited) :
      Notes path (.demand (.ok true) :: plan) marks awaited
  | mark {plan : Plan} {marks : List (Path × Mark)} {awaited : List Path} (place : Path)
      (terminal : Tree) (mark : Mark) (canHold : terminal.isOneOf Grammar.version3.markable = true)
      (rest : Notes path plan marks awaited) :
      Notes path (.mark (path ++ place) terminal.toElement mark :: plan) ((place, mark) :: marks)
        awaited
  | await {plan : Plan} {marks : List (Path × Mark)} {awaited : List Path} (place : Path)
      (rest : Notes path plan marks awaited) :
      Notes path (.await (path ++ place) :: plan) marks (place :: awaited)

theorem Notes.append {path : Path} {first second : Plan} {marks more : List (Path × Mark)}
    {awaited further : List Path} (notes : Notes path first marks awaited)
    (others : Notes path second more further) :
    Notes path (first ++ second) (marks ++ more) (awaited ++ further) := by
  induction notes with
  | nil => exact others
  | demand rest ih => exact .demand ih
  | mark place terminal noted canHold rest ih => exact .mark place terminal noted canHold ih
  | await place rest ih => exact .await place ih

/-- Notes for a construct below another are notes for that one too. -/
theorem Notes.rebase {path base : Path} {plan : Plan} {marks : List (Path × Mark)}
    {awaited : List Path} (notes : Notes (path ++ base) plan marks awaited) :
    Notes path plan (marks.map fun entry => (base ++ entry.1, entry.2))
      (awaited.map (base ++ ·)) := by
  induction notes with
  | nil => exact .nil
  | demand rest ih => exact .demand ih
  | mark place terminal noted canHold rest ih =>
      rw [List.append_assoc]
      exact .mark (base ++ place) terminal noted canHold ih
  | await place rest ih =>
      rw [List.append_assoc]
      exact .await (base ++ place) ih

theorem markAt_notes {tree terminal : Tree} {route : List Int} {places : Path}
    (reaches : Tree.Reaches tree route places terminal)
    (canHold : terminal.isOneOf Grammar.version3.markable = true) (path : Path) (mark : Mark) :
    Notes path (markAt path tree.toElement route mark) [(places, mark)] [] := by
  simp only [markAt, reaches.locate]
  exact .mark places terminal mark canHold .nil

theorem nodup_rebase {marks : List (Path × Mark)} (base : Path) (once : (marks.map Prod.fst).Nodup) :
    ((marks.map fun entry => (base ++ entry.1, entry.2)).map Prod.fst).Nodup := by
  have places : (marks.map fun entry => (base ++ entry.1, entry.2)).map Prod.fst =
      (marks.map Prod.fst).map (base ++ ·) := by
    simp
  rw [places]
  exact List.Pairwise.map _ (fun first second differ same => differ (List.append_cancel_left same)) once

/-- No place is marked twice if the later marks go to other places than the earlier ones. -/
theorem nodup_append {early late : List (Path × Mark)} (first : (early.map Prod.fst).Nodup)
    (second : (late.map Prod.fst).Nodup)
    (apart : ∀ {place mark other noted}, (place, mark) ∈ early → (other, noted) ∈ late →
      place ≠ other) :
    ((early ++ late).map Prod.fst).Nodup := by
  rw [List.map_append, List.nodup_append]
  refine ⟨first, second, ?_⟩
  intro place inEarly other inLate
  rcases List.mem_map.mp inEarly with ⟨⟨place, mark⟩, member, rfl⟩
  rcases List.mem_map.mp inLate with ⟨⟨other, noted⟩, otherMember, rfl⟩
  exact apart member otherMember

end Plan

namespace State

/-- A state that differs from another by the given notes for places below a path. -/
structure Noted (before : State) (path : Path) (marks : List (Path × Mark)) (awaited : List Path)
    (after : State) : Prop where
  marked : ∀ place mark, (place, mark) ∈ marks → after.labelAt? (path ++ place) = some (.known mark)
  unmarked : ∀ other, (∀ place mark, (place, mark) ∈ marks → other ≠ path ++ place) →
    after.labelAt? other = before.labelAt? other
  awaited : ∀ other, other ∈ after.awaited ↔
    other ∈ before.awaited ∨ ∃ place ∈ awaited, other = path ++ place
  rest : after = { before with marks := after.marks, awaited := after.awaited }

/-- A label below the path, where there was none, is one of the notes. -/
theorem Noted.mem_of_labelled {before after : State} {path place : Path} {marks : List (Path × Mark)}
    {awaited : List Path} (noted : before.Noted path marks awaited after)
    (unlabelled : before.labelAt? (path ++ place) = none)
    (labelled : after.labelAt? (path ++ place) ≠ none) : ∃ mark, (place, mark) ∈ marks := by
  apply Classical.byContradiction
  intro never
  apply labelled
  rw [noted.unmarked, unlabelled]
  intro other mark member same
  rw [← List.append_cancel_left same] at member
  exact never ⟨mark, member⟩

theorem Noted.cons_mark {before after : State} {path place : Path} {mark : Mark}
    {marks : List (Path × Mark)} {awaited : List Path}
    (free : before.labelAt? (path ++ place) = none) (once : place ∉ marks.map Prod.fst)
    (noted : Noted { before with marks := before.marks ++ [(path ++ place, .known mark)] } path marks
      awaited after) :
    before.Noted path ((place, mark) :: marks) awaited after := by
  have label (other : Path) :=
    before.labelAt?_append (path ++ place) other (.known mark)
  refine ⟨?_, ?_, noted.awaited, noted.rest⟩
  · intro other another member
    rcases List.mem_cons.mp member with isFirst | inRest
    · cases isFirst
      rw [noted.unmarked, label, free, if_pos rfl]
      · rfl
      · intro later laterMark isLater same
        apply once
        rw [List.append_cancel_left same]
        exact List.mem_map.mpr ⟨(later, laterMark), isLater, rfl⟩
    · exact noted.marked other another inRest
  · intro other differs
    rw [noted.unmarked other fun later laterMark isLater => differs later laterMark
      (List.mem_cons_of_mem _ isLater), label, if_neg (differs place mark List.mem_cons_self),
      Option.or_none]

theorem Noted.cons_await {before after : State} {path place : Path} {marks : List (Path × Mark)}
    {awaited : List Path} (noted : (before.await (path ++ place)).Noted path marks awaited after) :
    before.Noted path marks (place :: awaited) after := by
  refine ⟨noted.marked, ?_, ?_, ?_⟩
  · intro other differs
    rw [noted.unmarked other differs, labelAt?_await]
  · intro other
    rw [noted.awaited, mem_await, or_assoc]
    simp
  · rw [noted.rest]
    unfold await
    split <;> rfl

/-- A plan that only notes things comes off. -/
theorem takeAll_notes {path : Path} {plan : Plan} {marks : List (Path × Mark)} {awaited : List Path}
    (notes : plan.Notes path marks awaited) {before : State}
    (fresh : ∀ place mark, (place, mark) ∈ marks → before.labelAt? (path ++ place) = none)
    (once : (marks.map Prod.fst).Nodup) :
    ∃ after, before.takeAll .version3 plan = ⟨after, none⟩ ∧
      before.Noted path marks awaited after := by
  -- The marks are set one by one, so the places of the later ones must still be free each time.
  induction notes generalizing before with
  | nil => exact ⟨before, rfl, by simp, by simp, by simp, rfl⟩
  | demand rest ih => exact ih fresh once
  | @mark plan marks awaited place terminal noted canHold rest ih =>
      have free : before.labelAt? (path ++ place) = none := fresh place noted List.mem_cons_self
      rcases List.nodup_cons.mp once with ⟨notAgain, onceMore⟩
      let middle : State :=
        { before with marks := before.marks ++ [(path ++ place, .known noted)] }
      have taken : before.take .version3 (.mark (path ++ place) terminal.toElement noted) =
          ⟨middle, none⟩ := by
        simp only [take, setMark, free, Option.isSome_none, Bool.false_eq_true, if_false,
          Tree.kind_toElement, Tree.isNumberIn_kind, canHold, if_true]
        rfl
      have middleFresh : ∀ other mark, (other, mark) ∈ marks →
          middle.labelAt? (path ++ other) = none := by
        intro other mark member
        have differs : path ++ other ≠ path ++ place := by
          intro same
          apply notAgain
          rw [← List.append_cancel_left same]
          exact List.mem_map.mpr ⟨(other, mark), member, rfl⟩
        have label := before.labelAt?_append (path ++ place) (path ++ other) (.known noted)
        rwa [fresh other mark (List.mem_cons_of_mem _ member), if_neg differs] at label
      rcases ih middleFresh onceMore with ⟨after, goesOn, later⟩
      refine ⟨after, ?_, later.cons_mark free notAgain⟩
      rw [takeAll, taken]
      exact goesOn
  | @await plan marks awaited place rest ih =>
      have stillFresh : ∀ other mark, (other, mark) ∈ marks →
          (before.await (path ++ place)).labelAt? (path ++ other) = none := by
        intro other mark member
        rw [labelAt?_await]
        exact fresh other mark member
      rcases ih stillFresh once with ⟨after, goesOn, later⟩
      exact ⟨after, goesOn, later.cons_await⟩

/-- Nothing is noted any longer for the places of a region, and the notes for all others are the
same. -/
structure Clears (region : Path → Prop) (before after : State) : Prop where
  unlabelled : ∀ place, region place → after.labelAt? place = none
  labels : ∀ place, ¬ region place → after.labelAt? place = before.labelAt? place
  reached : ∀ place, region place → place ∉ after.awaited
  awaited : ∀ place, ¬ region place → (place ∈ after.awaited ↔ place ∈ before.awaited)

theorem Clears.trans {early late : Path → Prop} {before middle after : State}
    (first : Clears early before middle) (second : Clears late middle after) :
    Clears (fun place => early place ∨ late place) before after := by
  refine ⟨?_, ?_, ?_, ?_⟩
  · intro place inside
    by_cases inLate : late place
    · exact second.unlabelled place inLate
    · rw [second.labels place inLate]
      exact first.unlabelled place (inside.resolve_right inLate)
  · intro place outside
    rcases not_or.mp outside with ⟨notEarly, notLate⟩
    rw [second.labels place notLate, first.labels place notEarly]
  · intro place inside
    by_cases inLate : late place
    · exact second.reached place inLate
    · rw [second.awaited place inLate]
      exact first.reached place (inside.resolve_right inLate)
  · intro place outside
    rcases not_or.mp outside with ⟨notEarly, notLate⟩
    rw [second.awaited place notLate, first.awaited place notEarly]

theorem Clears.congr {region same : Path → Prop} {before after : State}
    (clears : Clears region before after) (iff : ∀ place, region place ↔ same place) :
    Clears same before after := by
  have equal : region = same := funext fun place => propext (iff place)
  rw [← equal]
  exact clears

end State

end CrossRef
