import CrossRef.Walk
import Mathlib.Data.List.Basic

/-!
# Moved places

A walk finds the marks of terminals and the targets of assignments again by their places.  It compares
places with each other and does nothing else with them.  So a walk whose notes are all at other places
does the same, as long as the steps speak of the moved places too and different places stay different.

Two plans need to do the same only up to the first step that fails for certain, since what stands behind
it is never done.
-/

namespace CrossRef

/-- A change of places that keeps different places apart. -/
structure Relocation where
  move : Path → Path
  injective : Function.Injective move

variable {relocation : Relocation}

namespace Relocation

theorem decide_ne (relocation : Relocation) (first second : Path) :
    decide (relocation.move first ≠ relocation.move second) = decide (first ≠ second) := by
  rw [decide_eq_decide]
  exact relocation.injective.ne_iff

theorem filter_map_of {Note Moved : Type} {move : Note → Moved} {keeps : Moved → Bool}
    {keepsBefore : Note → Bool} (same : ∀ note, keeps (move note) = keepsBefore note) (notes : List Note) :
    (notes.map move).filter keeps = (notes.filter keepsBefore).map move := by
  rw [List.filter_map]
  apply congrArg
  apply List.filter_congr
  intro note _
  exact same note

end Relocation

namespace State

/-- A state whose notes are at other places. -/
def relocate (relocation : Relocation) (state : State) : State :=
  { state with
    marks := state.marks.map fun note => (relocation.move note.1, note.2)
    awaited := state.awaited.map relocation.move }

theorem labelAt?_relocate (state : State) (place : Path) :
    (state.relocate relocation).labelAt? (relocation.move place) = state.labelAt? place := by
  unfold labelAt? relocate
  simp only
  induction state.marks with
  | nil => rfl
  | cons note rest ih =>
      have same : (relocation.move place == relocation.move note.1) = (place == note.1) := by
        rw [Bool.eq_iff_iff, beq_iff_eq, beq_iff_eq]
        exact relocation.injective.eq_iff
      rw [List.map_cons, List.lookup_cons, List.lookup_cons, same, ih]

theorem dropMark_relocate (state : State) (place : Path) :
    (state.relocate relocation).dropMark (relocation.move place) =
      (state.dropMark place).relocate relocation := by
  unfold dropMark relocate
  rw [Relocation.filter_map_of]
  intro note
  exact relocation.decide_ne note.1 place

theorem awaited_contains_relocate (state : State) (place : Path) :
    (state.relocate relocation).awaited.contains (relocation.move place) =
      state.awaited.contains place := by
  rw [Bool.eq_iff_iff, List.contains_iff_mem, List.contains_iff_mem]
  exact List.mem_map_of_injective relocation.injective

theorem await_relocate (state : State) (place : Path) :
    (state.relocate relocation).await (relocation.move place) =
      (state.await place).relocate relocation := by
  unfold await
  rw [awaited_contains_relocate]
  split
  · rfl
  · simp [relocate]

end State

/-- Two attempts whose states differ in the places of the notes and which fail both or neither. -/
structure Attempt.Moved (relocation : Relocation) (first second : Attempt) : Prop where
  state : second.state = first.state.relocate relocation
  fault : second.fault.isSome = first.fault.isSome

namespace Step

/-- The place that a step speaks of. -/
def place? : Step → Option Path
  | .mark place _ _ | .unmark place | .await place | .arrive place => some place
  | _ => none

/-- Whether a step fails in every state. -/
def stops : Step → Bool
  | .fail _ | .demand (.ok false) | .demand (.error _) => true
  | _ => false

/-- A step and the one that does the same at the moved place. -/
inductive Moved (relocation : Relocation) : Step → Step → Prop where
  | placeless {step : Step} (free : step.place? = none) : Moved relocation step step
  | mark (place : Path) {terminal other : Element} (sameKind : other.kind = terminal.kind) (mark : Mark) :
      Moved relocation (.mark place terminal mark) (.mark (relocation.move place) other mark)
  | unmark (place : Path) : Moved relocation (.unmark place) (.unmark (relocation.move place))
  | await (place : Path) : Moved relocation (.await place) (.await (relocation.move place))
  | arrive (place : Path) : Moved relocation (.arrive place) (.arrive (relocation.move place))

end Step

namespace State

theorem setMark_moved (grammar : Grammar) (state : State) (place : Path) {terminal other : Element}
    (sameKind : other.kind = terminal.kind) (label : Label) :
    (state.setMark grammar place terminal label).Moved relocation
      ((state.relocate relocation).setMark grammar (relocation.move place) other label) := by
  unfold setMark
  rw [labelAt?_relocate, sameKind]
  split
  · exact ⟨rfl, rfl⟩
  · split
    · exact ⟨rfl, rfl⟩
    · split
      · exact ⟨by simp [relocate], rfl⟩
      · exact ⟨rfl, rfl⟩

theorem arrive_moved (state : State) (place : Path) :
    (state.arrive place).Moved relocation ((state.relocate relocation).arrive (relocation.move place)) := by
  have remaining : (state.awaited.map relocation.move).filter (· ≠ relocation.move place) =
      (state.awaited.filter (· ≠ place)).map relocation.move :=
    Relocation.filter_map_of (relocation.decide_ne · place) state.awaited
  unfold arrive relocate
  simp only [remaining]
  split <;> exact ⟨rfl, rfl⟩

theorem addItem_relocate (state : State) (item : Item) :
    (state.addItem item).Moved relocation ((state.relocate relocation).addItem item) := by
  unfold addItem relocate
  simp only
  split
  · exact ⟨rfl, rfl⟩
  · split <;> exact ⟨rfl, rfl⟩

theorem commit_relocate (state : State) (next : Element) :
    (state.commit next).Moved relocation ((state.relocate relocation).commit next) := by
  have flushed : (state.relocate relocation).flush = state.flush.relocate relocation := by
    unfold flush relocate
    simp only
    split
    · rfl
    · split <;> rfl
  unfold commit
  rw [flushed]
  split
  · split <;> exact ⟨rfl, rfl⟩
  · exact ⟨rfl, rfl⟩

theorem dedent_relocate (state : State) :
    state.dedent.Moved relocation (state.relocate relocation).dedent := by
  unfold dedent
  simp only [show (state.relocate relocation).indentation = state.indentation from rfl,
    show (state.relocate relocation).functionLevel = state.functionLevel from rfl]
  split
  · exact addItem_relocate { state with indentation := state.indentation - 1, functionLevel := -1 } _
  · exact ⟨rfl, rfl⟩

/-- One step with the notes and the place moved. -/
theorem take_moved (grammar : Grammar) (state : State) {step other : Step}
    (moved : step.Moved relocation other) :
    (state.take grammar step).Moved relocation ((state.relocate relocation).take grammar other) := by
  cases moved with
  | mark place sameKind mark => exact setMark_moved grammar state place sameKind _
  | unmark place => exact ⟨dropMark_relocate state place, rfl⟩
  | await place => exact ⟨await_relocate state place, rfl⟩
  | arrive place => exact arrive_moved state place
  | placeless free =>
      cases step with
      | mark place terminal mark | unmark place | await place | arrive place => cases free
      | demand verdict => rcases verdict with fault | _ | _ <;> exact ⟨rfl, rfl⟩
      | dedent => exact dedent_relocate state
      | turn number => exact commit_relocate state (.int number)
      | finish => exact commit_relocate state .null
      | add item => exact addItem_relocate state item
      | fail fault | settle | openFunction | beginImport | countImports halves | finishImport | indent =>
          exact ⟨rfl, rfl⟩

theorem take_of_stops (grammar : Grammar) (state : State) {step : Step} (stops : step.stops = true) :
    ∃ fault, state.take grammar step = ⟨state, some fault⟩ := by
  cases step with
  | fail fault => exact ⟨fault, rfl⟩
  | demand verdict =>
      rcases verdict with fault | _ | _
      · exact ⟨fault, rfl⟩
      · exact ⟨.misshapen, rfl⟩
      · cases stops
  | _ => cases stops

end State

namespace Plan

/-- Two plans that do the same, the second one at the moved places, up to a step that stops both. -/
inductive Moved (relocation : Relocation) : Plan → Plan → Prop where
  | nil : Moved relocation [] []
  | stop {step other : Step} (stops : step.stops = true) (otherStops : other.stops = true)
      (rest others : Plan) : Moved relocation (step :: rest) (other :: others)
  | cons {step other : Step} {rest others : Plan} (first : step.Moved relocation other)
      (behind : Moved relocation rest others) : Moved relocation (step :: rest) (other :: others)

variable {plan other more otherMore : Plan}

theorem moved_fail (first second : Fault) : Moved relocation [.fail first] [.fail second] :=
  .stop rfl rfl [] []

theorem moved_step {step : Step} (free : step.place? = none) (moved : Moved relocation plan other) :
    Moved relocation (step :: plan) (step :: other) :=
  .cons (.placeless free) moved

/-- What stands behind a demand matters only if the demand is met. -/
theorem moved_demand {verdict otherVerdict : Verdict} (same : otherVerdict = verdict)
    (behind : verdict = .ok true → Moved relocation plan other) :
    Moved relocation (.demand verdict :: plan) (.demand otherVerdict :: other) := by
  rw [same]
  rcases verdict with fault | _ | _
  · exact .stop rfl rfl plan other
  · exact .stop rfl rfl plan other
  · exact moved_step rfl (behind rfl)

theorem Moved.append (first : Moved relocation plan other) (second : Moved relocation more otherMore) :
    Moved relocation (plan ++ more) (other ++ otherMore) := by
  induction first with
  | nil => exact second
  | stop stops otherStops rest others => exact .stop stops otherStops _ _
  | cons step _ ih => exact .cons step ih

theorem moved_branch {verdict otherVerdict : Verdict} {yes no otherYes otherNo : Plan}
    (same : otherVerdict = verdict) (ifYes : verdict = .ok true → Moved relocation yes otherYes)
    (ifNo : verdict = .ok false → Moved relocation no otherNo) :
    Moved relocation (branch verdict yes no) (branch otherVerdict otherYes otherNo) := by
  rw [same]
  unfold branch
  split
  · exact ifYes rfl
  · exact ifNo rfl
  · exact moved_fail _ _

theorem moved_flatMap {Entry : Type} {entries others : List Entry} {related : Entry → Entry → Prop}
    {plan otherPlan : Entry → Plan} (pairs : List.Forall₂ related entries others)
    (each : ∀ entry other, related entry other → Moved relocation (plan entry) (otherPlan other)) :
    Moved relocation (entries.flatMap plan) (others.flatMap otherPlan) := by
  induction pairs with
  | nil => exact .nil
  | cons first _ ih => exact (each _ _ first).append ih

theorem moved_map {Entry : Type} {entries others : List Entry} {related : Entry → Entry → Prop}
    {step otherStep : Entry → Step} (pairs : List.Forall₂ related entries others)
    (each : ∀ entry other, related entry other → (step entry).Moved relocation (otherStep other)) :
    Moved relocation (entries.map step) (others.map otherStep) := by
  induction pairs with
  | nil => exact .nil
  | cons first _ ih => exact .cons (each _ _ first) ih

end Plan

/-- Plans that do the same lead to states that differ in the places of the notes. -/
theorem State.takeAll_moved (grammar : Grammar) (state : State) {plan other : Plan}
    (moved : plan.Moved relocation other) :
    (state.takeAll grammar plan).Moved relocation
      ((state.relocate relocation).takeAll grammar other) := by
  induction moved generalizing state with
  | nil => exact ⟨rfl, rfl⟩
  | stop stops otherStops rest others =>
      rcases state.take_of_stops grammar stops with ⟨fault, taken⟩
      rcases (state.relocate relocation).take_of_stops grammar otherStops with ⟨otherFault, otherTaken⟩
      rw [takeAll, takeAll, taken, otherTaken]
      exact ⟨rfl, rfl⟩
  | @cons step otherStep rest others first _ ih =>
      have moved := state.take_moved grammar first
      rw [takeAll, takeAll]
      generalize state.take grammar step = taken at moved
      generalize (state.relocate relocation).take grammar otherStep = otherTaken at moved
      rcases taken with ⟨next, _ | fault⟩
      · rcases otherTaken with ⟨otherNext, _ | fault⟩
        · cases moved.state
          exact ih next
        · cases moved.fault
      · rcases otherTaken with ⟨otherNext, _ | fault⟩
        · cases moved.fault
        · exact moved

end CrossRef
