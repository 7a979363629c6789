import CrossRef.Proofs.AssignedNames

/-!
# Stars among the targets of an assignment

A target may stand behind a star.  A bare list on the left of an assignment assigns to all its members,
starred or not.  Brackets assign to their members only up to the first star: that member and those
behind it are passed like the parts of any expression.  Brackets round a list of targets therefore
leave what is assigned to as it is exactly if nothing is assigned to from the first star on.
-/

namespace CrossRef

namespace Assignment.Members

variable {stars : Bool}

/-- The ways to the names that the members from the first star on assign to. -/
def skipped (position : Nat) : Members stars → List Path
  | .last member | .trailing member _ =>
    if member.isStarred then member.ways.map fun way => [position] ++ way else []
  | .cons member _ rest =>
    if member.isStarred then
      (member.ways.map fun way => [position] ++ way) ++ rest.ways true (position + 2)
    else rest.skipped (position + 2)

/-- Stars make the difference between a bare list and one in brackets. -/
theorem ways_true (members : Members stars) (position : Nat) :
    members.ways true position = members.ways false position ++ members.skipped position := by
  cases members with
  | last member | trailing member _ =>
      cases isStarred : member.isStarred <;> simp [ways, skipped, isStarred]
  | cons member _ rest =>
      cases isStarred : member.isStarred with
      | false => simp [ways, skipped, isStarred, rest.ways_true (position + 2)]
      | true => simp [ways, skipped, isStarred]

end Assignment.Members

namespace Unpacking

open Assignment

variable {settings : Settings}

/-- The assignment of a value to a bare list. -/
def statement (members : Members true) (equal : Token) (value : Expression) : Element :=
  (Assignment.last members equal value).toElement

/-- Brackets round some members, as the only member of a list. -/
def enclosed (links : List Link) (brackets : Brackets) (opening closing : Token)
    (members : Members true) : Members true :=
  .last (.plain links (.bracketed brackets opening closing members))

/-- The way from an assignment to the members in brackets on its left. -/
def enclosure (links : List Link) : Path :=
  [1, 1, 1] ++ descent links ++ [1, 2]

theorem ways_enclosed (links : List Link) (brackets : Brackets) (opening closing : Token)
    (members : Members true) (path : Path) :
    (((enclosed links brackets opening closing members).ways true 1).map fun way =>
        path ++ [1] ++ way) =
      (members.ways false 1).map fun way => path ++ enclosure links ++ way := by
  simp [enclosed, Members.ways, Member.ways, Target.ways, enclosure]

/-- No assignment is under way. -/
structure Calm (state : State) : Prop where
  noneAwaited : state.awaited = []
  settled : state.assigning = false
  unnoted : ∀ place, state.isNoted place = false

/-- The walk of an assignment to a bare list. -/
def walk (settings : Settings) (state : State) (path : Path) (members : Members true)
    (equal : Token) (value : Expression) : Walk :=
  Walk.below settings state path (statement members equal value)

/-- The names that the walk of an assignment to a bare list marks as assigned. -/
def assigned (settings : Settings) (state : State) (path : Path) (members : Members true)
    (equal : Token) (value : Expression) : List Path :=
  (walk settings state path members equal value).assigned path (statement members equal value)

/-- A walk that comes to its end marks the names that the assignment assigns to, each once. -/
theorem assigned_perm (version : settings.grammar = .version3) {state : State} (calm : Calm state)
    {path : Path} {members : Members true} {equal : Token} {value : Expression}
    (complete : (walk settings state path members equal value).fault = none) :
    (assigned settings state path members equal value).Nodup ∧
      (assigned settings state path members equal value).Perm
        ((members.ways true 1).map fun way => path ++ [1] ++ way) := by
  have unnoted : state.notedAmong ((statement members equal value).preorder path) = [] := by
    simp [State.notedAmong, calm.unnoted]
  have marked := Walk.assigned_of_assignment version calm.noneAwaited calm.settled unnoted complete
  rwa [leaves, ways, State.map_through] at marked

theorem mem_map_append {front way : Path} {ways : List Path} :
    front ++ way ∈ (ways.map fun other => front ++ other) ↔ way ∈ ways := by
  simp

/-- A bare list marks the names of all its members as assigned, brackets round it those of the members
up to the first star.  Both mark the same names exactly if nothing is assigned to from the first star
on. -/
theorem brackets_keep_assigned_iff (settings : Settings) (version : settings.grammar = .version3)
    (members : Members true) (equal : Token) (value : Expression) (links : List Link)
    (brackets : Brackets) (opening closing : Token) (state : State) (path : Path) (calm : Calm state)
    (bareComplete : (walk settings state path members equal value).fault = none)
    (enclosedComplete : (walk settings state path
      (enclosed links brackets opening closing members) equal value).fault = none) :
    (assigned settings state path members equal value).Perm
        ((members.ways true 1).map fun way => path ++ [1] ++ way) ∧
      (assigned settings state path (enclosed links brackets opening closing members) equal value).Perm
        ((members.ways false 1).map fun way => path ++ enclosure links ++ way) ∧
      ((∀ way, path ++ [1] ++ way ∈ assigned settings state path members equal value ↔
          path ++ enclosure links ++ way ∈
            assigned settings state path (enclosed links brackets opening closing members) equal value) ↔
        members.skipped 1 = []) := by
  rcases assigned_perm version calm bareComplete with ⟨once, bare⟩
  have inBrackets := (assigned_perm version calm enclosedComplete).2
  rw [ways_enclosed] at inBrackets
  refine ⟨bare, inBrackets, ?_, ?_⟩
  · intro same
    apply List.eq_nil_iff_forall_not_mem.mpr
    intro way isSkipped
    have distinct := (bare.nodup_iff.mp once).of_map
    rw [members.ways_true, List.nodup_append] at distinct
    have inBare : way ∈ members.ways true 1 := by
      rw [members.ways_true]
      exact List.mem_append_right _ isSkipped
    have isMarked := (same way).mp (bare.mem_iff.mpr (mem_map_append.mpr inBare))
    have isLeading := mem_map_append.mp (inBrackets.mem_iff.mp isMarked)
    exact distinct.2.2 way isLeading way isSkipped rfl
  · intro nothing way
    rw [bare.mem_iff, inBrackets.mem_iff, mem_map_append, mem_map_append, members.ways_true, nothing,
      List.append_nil]

/-- The kinds of the constructs between a test and a primary. -/
def levelKinds : List Nat :=
  [306, 307, 308, 309, 312, 313, 314, 315, 316, 317, 318]

theorem unnoticed_level : ∀ kind ∈ levelKinds,
    Kind.firstConstruct ≤ kind ∧ Grammar.version3.constructOf (.int kind) = .other := by
  decide +kernel

/-- The constructs between a test and a primary. -/
def levels : List Link :=
  levelKinds.pmap (fun kind passed => ⟨kind, passed.1, passed.2⟩) unnoticed_level

/-- The members `a, *b`. -/
def starredPair : Members true :=
  .cons (.plain levels (.ofName "a")) (.ofText ",")
    (.last (.starred rfl (.ofText "*") (levels.drop 4) (.ofName "b")))

/-- A list of one name that is read. -/
def valueC : Expression where
  tree := .ofKind Grammar.version3.targetList
    [.ofKind Grammar.version3.test [wrap levels (Target.ofName "c" : Target true).toElement]]
  isExpression := by decide +kernel

/-- The members `(a, *b)`. -/
def enclosedPair : Members true :=
  enclosed levels .round (.ofText "(") (.ofText ")") starredPair

theorem starredPair_complete :
    (walk {} {} [] starredPair (.ofText "=") valueC).fault = none ∧
      (walk {} {} [] enclosedPair (.ofText "=") valueC).fault = none := by
  constructor <;>
    · rw [walk, Walk.below_eq_visitEach]
      decide +kernel

theorem brackets_keep_assigned_iff_starredPair :
    Calm {} ∧ (walk {} {} [] starredPair (.ofText "=") valueC).fault = none ∧
      (walk {} {} [] enclosedPair (.ofText "=") valueC).fault = none ∧
      starredPair.skipped 1 = [[3, 2] ++ descent (levels.drop 4) ++ [1, 1]] ∧
      (assigned {} {} [] starredPair (.ofText "=") valueC).Perm
        [[1, 1, 1] ++ descent levels ++ [1, 1], [1, 3, 2] ++ descent (levels.drop 4) ++ [1, 1]] ∧
      (assigned {} {} [] enclosedPair (.ofText "=") valueC).Perm
        [enclosure levels ++ [1, 1] ++ descent levels ++ [1, 1]] := by
  have calm : Calm {} := ⟨rfl, rfl, fun _ => rfl⟩
  rcases starredPair_complete with ⟨bareComplete, enclosedComplete⟩
  rcases brackets_keep_assigned_iff {} rfl starredPair (.ofText "=") valueC levels .round (.ofText "(")
    (.ofText ")") {} [] calm bareComplete enclosedComplete with ⟨bare, inBrackets, _⟩
  exact ⟨calm, bareComplete, enclosedComplete, rfl, bare, inBrackets⟩

/-- The starred name is marked in a bare list and not in brackets. -/
theorem starredPair_unmarked_in_brackets :
    (walk {} {} [] starredPair (.ofText "=") valueC).fault = none ∧
      (walk {} {} [] enclosedPair (.ofText "=") valueC).fault = none ∧
      ¬ ∀ way, [1] ++ way ∈ assigned {} {} [] starredPair (.ofText "=") valueC ↔
        enclosure levels ++ way ∈ assigned {} {} [] enclosedPair (.ofText "=") valueC := by
  refine ⟨starredPair_complete.1, starredPair_complete.2, ?_⟩
  intro same
  have starred := same ([3, 2] ++ descent (levels.drop 4) ++ [1, 1])
  simp only [assigned, walk, Walk.below_eq_visitEach] at starred
  exact absurd starred (by decide +kernel)

end Unpacking

end CrossRef
