import CrossRef.Proofs.Assignments
import Mathlib.Data.List.Basic

/-!
# Entering primaries

A primary asks many questions about the trees below it before it makes its notes: which name it
calls, which attributes, and, if it is assigned to, which name or attribute that is.  In a sound
tree each question has an answer, and a mark for a call and a mark for an assignment never meet,
since only a part that parentheses follow is called.
-/

namespace CrossRef

namespace Verdict

/-- A question that has an answer; if it is yes, a fact is known. -/
def Settles (verdict : Verdict) (fact : Prop) : Prop :=
  verdict = .ok false ∨ verdict = .ok true ∧ fact

theorem Settles.imp {verdict : Verdict} {fact weaker : Prop} (settles : verdict.Settles fact)
    (implies : fact → weaker) : verdict.Settles weaker := by
  rcases settles with no | ⟨yes, known⟩
  · exact Or.inl no
  · exact Or.inr ⟨yes, implies known⟩

theorem settles_ok (answer : Bool) : Settles (.ok answer) (answer = true) := by
  cases answer with
  | false => exact Or.inl rfl
  | true => exact Or.inr ⟨rfl, rfl⟩

theorem settles_nil {fact : Prop} (known : fact) : Settles (all []) fact :=
  Or.inr ⟨rfl, known⟩

theorem settles_and {first second : Verdict} {fact later : Prop} (settles : first.Settles fact)
    (others : fact → second.Settles later) : (first.and second).Settles later := by
  rcases settles with no | ⟨yes, known⟩
  · left
    rw [no]
    rfl
  · rw [yes]
    exact others known

/-- Of several questions, each can rely on what the ones before it have found. -/
theorem settles_cons {first : Verdict} {rest : List Verdict} {fact later : Prop}
    (settles : first.Settles fact) (others : fact → (all rest).Settles later) :
    (all (first :: rest)).Settles later :=
  settles_and settles others

theorem all_append (first second : List Verdict) :
    all (first ++ second) = (all first).and (all second) := by
  induction first with
  | nil => rfl
  | cons verdict rest ih =>
      rw [List.cons_append, all, all, ih]
      rcases verdict with fault | _ | _ <;> rfl

theorem settles_append {first second : List Verdict} {fact later : Prop}
    (settles : (all first).Settles fact) (others : fact → (all second).Settles later) :
    (all (first ++ second)).Settles later := by
  rw [all_append]
  exact settles_and settles others

/-- A plan that hangs on a question with an answer is one of two. -/
theorem Settles.branch {verdict : Verdict} {fact : Prop} {motive : Plan → Prop} {yes no : Plan}
    (settles : verdict.Settles fact) (ifYes : fact → motive yes) (ifNo : motive no) :
    motive (Plan.branch verdict yes no) := by
  rcases settles with answer | ⟨answer, known⟩
  · rw [answer]
    exact ifNo
  · rw [answer]
    exact ifYes known

end Verdict

namespace Tree

/-- Two routes, one behind the other. -/
theorem Reaches.trans {tree middle target : Tree} {first second : List Int} {early late : Path}
    (reaches : Reaches tree first early middle) (goesOn : Reaches middle second late target) :
    Reaches tree (first ++ second) (early ++ late) target := by
  induction reaches with
  | here tree => exact goesOn
  | descend isPlace isChild reaches ih => exact .descend isPlace isChild (ih goesOn)

theorem Reaches.settles_kindIs {tree target : Tree} {route : List Int} {places : Path}
    (reaches : Reaches tree route places target) (number : Nat) :
    (tree.toElement.kindIs route number).Settles (target.isOf number = true) := by
  rw [reaches.kindIs]
  exact Verdict.settles_ok _

theorem Reaches.settles_kindIn {tree target : Tree} {route : List Int} {places : Path}
    (reaches : Reaches tree route places target) (numbers : List Nat) :
    (tree.toElement.kindIn route numbers).Settles (target.isOneOf numbers = true) := by
  rw [reaches.kindIn]
  exact Verdict.settles_ok _

theorem Reaches.settles_lengthIs {tree target : Tree} {route : List Int} {places : Path}
    (reaches : Reaches tree route places target) (question : Nat → Bool) :
    (tree.toElement.lengthIs route question).Settles (question target.size = true) := by
  rw [reaches.lengthIs]
  exact Verdict.settles_ok _

/-- A sound trailer has a first tree, and a second one behind a dot. -/
theorem exists_trailer {part : Tree} (allSound : part.AllSound)
    (isTrailer : part.isOf grammar.trailer = true) :
    ∃ first rest, part = .branch grammar.trailer (first :: rest) ∧
      (first.isOf Kind.dot = true → rest ≠ []) := by
  rcases exists_branch allSound.sound isTrailer (by decide) with ⟨trees, rfl⟩
  have follows : production grammar.trailer trees = true := production_holds allSound.sound
  match trees, follows with
  | [only], follows =>
      have noDot : (!only.isOf Kind.dot) = true := follows
      refine ⟨only, [], rfl, ?_⟩
      intro isDot
      simp [isDot] at noDot
  | first :: second :: rest, _ => exact ⟨first, second :: rest, rfl, by simp⟩

theorem exists_atom {part : Tree} (allSound : part.AllSound)
    (isAtom : part.isOf grammar.atom = true) :
    ∃ first rest, part = .branch grammar.atom (first :: rest) := by
  rcases exists_branch allSound.sound isAtom (by decide) with ⟨trees, rfl⟩
  have nonempty : (!trees.isEmpty) = true := production_holds allSound.sound
  cases trees with
  | nil => cases nonempty
  | cons first rest => exact ⟨first, rest, rfl⟩

/-- The last of the trees below a construct. -/
theorem reaches_last (kind : Nat) (first : Tree) (rest : List Tree) :
    ∃ place last, Reaches (.branch kind (first :: rest)) [-1] place last := by
  have isLast : (first :: rest)[rest.length]? = some ((first :: rest)[rest.length]) :=
    List.getElem?_eq_getElem _
  exact ⟨_, _, reaches_back 1 Nat.one_pos rfl isLast⟩

variable {tree part : Tree} {position : Int} {places : Path}

/-- Whether a trailer stands in brackets of some sort. -/
theorem settles_bracketed (reaches : Reaches tree [position] places part) (allSound : part.AllSound)
    (opening closing : Nat) :
    (Verdict.all
      [tree.toElement.kindIs [position] grammar.trailer,
       tree.toElement.kindIs [position, 1] opening,
       tree.toElement.kindIs [position, -1] closing]).Settles
      (∃ first rest, part = .branch grammar.trailer (first :: rest) ∧ first.isOf opening = true) := by
  refine Verdict.settles_cons (reaches.settles_kindIs _) fun isTrailer => ?_
  rcases exists_trailer allSound isTrailer with ⟨first, rest, rfl, _⟩
  refine Verdict.settles_cons ((reaches.trans (reaches_child 0 rfl)).settles_kindIs _) fun opens => ?_
  rcases reaches_last grammar.trailer first rest with ⟨place, last, reachesLast⟩
  refine Verdict.settles_cons ((reaches.trans reachesLast).settles_kindIs _) fun _ => ?_
  exact Verdict.settles_nil ⟨first, rest, rfl, opens⟩

/-- Whether a trailer names an attribute. -/
theorem settles_attribute (reaches : Reaches tree [position] places part) (allSound : part.AllSound) :
    (Verdict.all
      [tree.toElement.kindIs [position] grammar.trailer,
       tree.toElement.kindIs [position, 1] Kind.dot,
       tree.toElement.kindIs [position, 2] Kind.name]).Settles
      (∃ first named rest, part = .branch grammar.trailer (first :: named :: rest) ∧
        named.isOf Kind.name = true) := by
  refine Verdict.settles_cons (reaches.settles_kindIs _) fun isTrailer => ?_
  rcases exists_trailer allSound isTrailer with ⟨first, rest, rfl, goesOn⟩
  refine Verdict.settles_cons ((reaches.trans (reaches_child 0 rfl)).settles_kindIs _) fun isDot => ?_
  match rest, goesOn isDot with
  | named :: others, _ =>
      refine Verdict.settles_cons ((reaches.trans (reaches_child 1 rfl)).settles_kindIs _)
        fun isName => ?_
      exact Verdict.settles_nil ⟨first, named, others, rfl, isName⟩

/-- Whether parentheses follow a part of a primary. -/
def Called (children : List Tree) (index : Nat) : Prop :=
  ∃ first rest, children[index + 1]? = some (.branch grammar.trailer (first :: rest)) ∧
    first.isOf Kind.leftParenthesis = true

/-- A route of a primary to a name that can be marked, and its place. -/
def Markable (children : List Tree) (route : List Int) (place : Path) : Prop :=
  ∃ terminal, Reaches (.branch grammar.power children) route place terminal ∧
    terminal.isOf Kind.name = true ∧ HoldsBelow grammar.power children place

variable {children : List Tree} {index : Nat} {first named : Tree} {rest : List Tree}

theorem markable_atom (isPart : children[index]? = some (.branch grammar.atom (first :: rest)))
    (isName : first.isOf Kind.name = true) :
    Markable children [((index + 1 : Nat) : Int), 1] [index + 1, 1] :=
  ⟨first, reaches_through index isPart (reaches_child 0 rfl), isName, index, _, [1], rfl, isPart,
    .descend (by decide) rfl (.here (by decide) isName)⟩

theorem markable_trailer
    (isPart : children[index]? = some (.branch grammar.trailer (first :: named :: rest)))
    (reaches : Reaches (.branch grammar.power children) [position] [index + 1]
      (.branch grammar.trailer (first :: named :: rest)))
    (isName : named.isOf Kind.name = true) :
    Markable children [position, 2] [index + 1, 2] :=
  ⟨named, reaches.trans (reaches_child 1 rfl), isName, index, _, [2], rfl, isPart,
    .descend (by decide) rfl (.here (by decide) isName)⟩

/-! ## Calls -/

theorem settles_isNamedCall (allSound : (branch grammar.power children).AllSound) :
    (isNamedCall .version3 (branch grammar.power children).toElement
      ((branch grammar.power children).size : Int)).Settles
      (Markable children [1, 1] [1, 1] ∧ Called children 0) := by
  unfold isNamedCall
  rw [kindIs_self, isOf_branch]
  simp only [decide_true]
  split
  · exact Or.inl rfl
  next long =>
    match children, long with
    | [], long => exact absurd (by simp) long
    | [only], long => exact absurd (by simp) long
    | name :: next :: others, _ =>
        have reachesName : Reaches (branch grammar.power (name :: next :: others)) [1] [1] name :=
          reaches_child 0 rfl
        have reachesNext : Reaches (branch grammar.power (name :: next :: others)) [2] [2] next :=
          reaches_child 1 rfl
        have nextSound : next.AllSound := allSound.child (by simp)
        refine Verdict.settles_cons (reachesName.settles_kindIs _) fun isAtom => ?_
        rcases exists_atom (allSound.child (by simp)) isAtom with ⟨first, rest, rfl⟩
        refine Verdict.settles_cons ((reachesName.trans (reaches_child 0 rfl)).settles_kindIs _)
          fun isName => ?_
        refine (settles_bracketed reachesNext nextSound Kind.leftParenthesis
          Kind.rightParenthesis).imp ?_
        rintro ⟨opening, more, rfl, opens⟩
        exact ⟨markable_atom rfl isName, opening, more, rfl, opens⟩

theorem settles_isAttributeCall (allSound : (branch grammar.power children).AllSound)
    (inside : index + 1 < children.length) :
    (isAttributeCall .version3 (branch grammar.power children).toElement ((index + 1 : Nat) : Int)
      ((branch grammar.power children).size : Int)).Settles
      (Markable children [((index + 1 : Nat) : Int), 2] [index + 1, 2] ∧ Called children index) := by
  have isPart : children[index]? = some (children[index]) := List.getElem?_eq_getElem _
  have isNext : children[index + 1]? = some (children[index + 1]) := List.getElem?_eq_getElem _
  generalize children[index] = part at isPart
  generalize children[index + 1] = next at isNext
  have before : ((index + 1 : Nat) : Int) < ((branch grammar.power children).size : Int) - 1 := by
    simp only [size]
    omega
  have reachesPart : Reaches (branch grammar.power children) [((index + 1 : Nat) : Int)] [index + 1]
      part := reaches_child index isPart
  have reachesNext : Reaches (branch grammar.power children) [((index + 1 : Nat) : Int) + 1]
      [index + 1 + 1] next := reaches_child (index + 1) isNext
  unfold isAttributeCall
  rw [kindIs_self, isOf_branch]
  simp only [decide_true]
  rw [if_pos before]
  have attributes := settles_attribute reachesPart (allSound.child (List.mem_of_getElem? isPart))
  refine Verdict.settles_append attributes ?_
  rintro ⟨first, named, rest, rfl, isName⟩
  refine (settles_bracketed reachesNext (allSound.child (List.mem_of_getElem? isNext))
    Kind.leftParenthesis Kind.rightParenthesis).imp ?_
  rintro ⟨opening, more, rfl, opens⟩
  exact ⟨markable_trailer isPart reachesPart isName, opening, more, isNext, opens⟩

/-- The marks for calls, which go to parts that parentheses follow. -/
def CallMarks (children : List Tree) (marks : List (Path × Mark)) : Prop :=
  ∀ place mark, (place, mark) ∈ marks → ∃ index position, place = [index + 1, position] ∧
    Called children index ∧ HoldsBelow grammar.power children place

theorem CallMarks.append {early late : List (Path × Mark)} (first : CallMarks children early)
    (second : CallMarks children late) : CallMarks children (early ++ late) := by
  intro place mark member
  rcases List.mem_append.mp member with inFirst | inSecond
  · exact first place mark inFirst
  · exact second place mark inSecond

/-- A question about one call leads to at most one mark. -/
theorem callAt_notes {verdict : Verdict} {route : List Int} {within : Nat}
    (settles : verdict.Settles (Markable children route [index + 1, within] ∧ Called children index))
    (path : Path) :
    ∃ marks, Plan.Notes path
        (Plan.branch verdict
          (Plan.markAt path (branch grammar.power children).toElement route .call) []) marks [] ∧
      (marks.map Prod.fst).Nodup ∧ CallMarks children marks ∧
      ∀ place mark, (place, mark) ∈ marks → place = [index + 1, within] := by
  rcases settles with no | ⟨yes, ⟨terminal, reaches, isName, holds⟩, called⟩
  · rw [no]
    exact ⟨[], .nil, by simp, by simp [CallMarks], by simp⟩
  · rw [yes]
    refine ⟨[([index + 1, within], .call)],
      Plan.markAt_notes reaches (markable_of_isName isName) path .call, by simp, ?_, ?_⟩
    · intro place mark member
      cases List.mem_singleton.mp member
      exact ⟨index, within, rfl, called, holds⟩
    · intro place mark member
      cases List.mem_singleton.mp member
      rfl

theorem attributeCalls_notes (allSound : (branch grammar.power children).AllSound) (path : Path) :
    ∀ count start, start + count < children.length →
    ∃ marks, Plan.Notes path
        ((List.range' (start + 1) count).flatMap fun (position : Nat) =>
          Plan.branch
            (isAttributeCall .version3 (branch grammar.power children).toElement position
              (branch grammar.power children).size)
            (Plan.markAt path (branch grammar.power children).toElement [position, 2] .call) [])
        marks [] ∧
      (marks.map Prod.fst).Nodup ∧ CallMarks children marks ∧
      ∀ place mark, (place, mark) ∈ marks → ∃ index, start ≤ index ∧ place = [index + 1, 2]
  | 0, _, _ => ⟨[], .nil, by simp, by simp [CallMarks], by simp⟩
  | count + 1, start, inside => by
      have isInside : start + 1 < children.length := by omega
      rcases callAt_notes (settles_isAttributeCall allSound isInside) path with
        ⟨firstMarks, firstNotes, firstOnce, firstCalls, isFirst⟩
      rcases attributeCalls_notes allSound path count (start + 1) (by omega) with
        ⟨marks, notes, once, areCalls, later⟩
      rw [List.range'_succ, List.flatMap_cons]
      refine ⟨firstMarks ++ marks, firstNotes.append notes, ?_, firstCalls.append areCalls, ?_⟩
      · apply Plan.nodup_append firstOnce once
        intro place mark other noted member otherMember same
        rcases later other noted otherMember with ⟨index, behind, isOther⟩
        have heads : start = index := by
          simpa [isFirst place mark member, isOther] using same
        omega
      · intro place mark member
        rcases List.mem_append.mp member with inFirst | inRest
        · exact ⟨start, Nat.le_refl start, isFirst place mark inFirst⟩
        · rcases later place mark inRest with ⟨index, behind, isPlace⟩
          exact ⟨index, by omega, isPlace⟩

/-- A primary marks what it calls. -/
theorem calls_notes (allSound : (branch grammar.power children).AllSound) (path : Path) :
    ∃ marks, Plan.Notes path (Plan.calls .version3 path (branch grammar.power children).toElement)
        marks [] ∧
      (marks.map Prod.fst).Nodup ∧ CallMarks children marks := by
  rcases callAt_notes (settles_isNamedCall allSound) path with
    ⟨firstMarks, firstNotes, firstOnce, firstCalls, isFirst⟩
  have attributes : ∃ marks, Plan.Notes path
        ((List.range' 1 ((branch grammar.power children).size - 2)).flatMap fun (position : Nat) =>
          Plan.branch
            (isAttributeCall .version3 (branch grammar.power children).toElement position
              (branch grammar.power children).size)
            (Plan.markAt path (branch grammar.power children).toElement [position, 2] .call) [])
        marks [] ∧
      (marks.map Prod.fst).Nodup ∧ CallMarks children marks ∧
      ∀ place mark, (place, mark) ∈ marks → ∃ index, 0 ≤ index ∧ place = [index + 1, 2] := by
    cases children with
    | nil => exact ⟨[], .nil, by simp, by simp [CallMarks], by simp⟩
    | cons part parts =>
        refine attributeCalls_notes allSound path ((branch grammar.power (part :: parts)).size - 2) 0 ?_
        simp only [size, List.length_cons]
        omega
  rcases attributes with ⟨marks, notes, once, areCalls, later⟩
  refine ⟨firstMarks ++ marks, ?_, ?_, firstCalls.append areCalls⟩
  · unfold Plan.calls
    simp only [length_elements]
    exact firstNotes.append notes
  · apply Plan.nodup_append firstOnce once
    intro place mark other noted member otherMember same
    rcases later other noted otherMember with ⟨index, _, isOther⟩
    simp [isFirst place mark member, isOther] at same

/-! ## Targets -/

/-- A plan that notes what a primary is assigned to: at most one name, in a part that no parentheses
follow, or the members of a list. -/
def TargetNotes (path : Path) (children : List Tree) (plan : Plan) : Prop :=
  ∃ marks awaited, plan.Notes path marks awaited ∧ (marks.map Prod.fst).Nodup ∧
    (∀ place mark, (place, mark) ∈ marks → ∃ index position, place = [index + 1, position] ∧
      ¬ Called children index ∧ HoldsBelow grammar.power children place) ∧
    ∀ place ∈ awaited, AwaitsBelow children place

theorem targetNotes_nil (path : Path) (children : List Tree) : TargetNotes path children [] :=
  ⟨[], [], .nil, by simp, by simp, by simp⟩

theorem Markable.targetNotes {route : List Int} {within : Nat}
    (markable : Markable children route [index + 1, within]) (notCalled : ¬ Called children index)
    (path : Path) :
    TargetNotes path children
      (Plan.markAt path (branch grammar.power children).toElement route .assignment) := by
  rcases markable with ⟨terminal, reaches, isName, holds⟩
  refine ⟨[([index + 1, within], .assignment)], [],
    Plan.markAt_notes reaches (markable_of_isName isName) path .assignment, by simp, ?_, by simp⟩
  intro place mark member
  cases List.mem_singleton.mp member
  exact ⟨index, within, rfl, notCalled, holds⟩

theorem not_called_of_none (isLast : children[index + 1]? = none) : ¬ Called children index := by
  rintro ⟨first, rest, isNext, _⟩
  rw [isLast] at isNext
  cases isNext

theorem not_called_of_subscript
    (isNext : children[index + 1]? = some (.branch grammar.trailer (first :: rest)))
    (opens : first.isOf Kind.leftBracket = true) : ¬ Called children index := by
  rintro ⟨other, more, isOther, calls⟩
  rw [isNext] at isOther
  cases isOther
  rw [isOf_iff] at opens calls
  rw [opens] at calls
  exact absurd calls (by decide)

/-- The members of a list of targets in brackets are awaited. -/
theorem members_targetNotes {second third : Tree} (allSound : second.AllSound)
    (isMembers : second.isOneOf grammar.bracketed = true) (path : Path) :
    TargetNotes path [.branch grammar.atom [first, second, third]]
      (match
          (branch grammar.power [.branch grammar.atom [first, second, third]]).toElement.follow [1, 2]
        with
        | .error fault => [.fail fault]
        | .ok members =>
          Plan.awaitMembers [grammar.test] (path ++ [1, 2]) (members.numbered 1)) := by
  have isOfMembers : second.isOf Kind.members = true := by
    simpa [isOneOf, Grammar.version3, Kind.members] using isMembers
  rcases exists_branch allSound.sound isOfMembers (by decide) with ⟨trees, rfl⟩
  have reaches : Reaches
      (branch grammar.power [.branch grammar.atom [first, .branch Kind.members trees, third]])
      [1, 2] [1, 2] (.branch Kind.members trees) :=
    reaches_through 0 rfl (reaches_child 1 rfl)
  rcases State.awaitMembers_notes [grammar.test] (path ++ [1, 2]) trees 1 with
    ⟨awaited, notes, members⟩
  rw [reaches.follow_eq]
  simp only [numbered_branch, List.drop_zero]
  refine ⟨[], _, notes.rebase, by simp, by simp, ?_⟩
  intro place member
  rcases List.mem_map.mp member with ⟨inner, innerMember, rfl⟩
  rcases members inner innerMember with ⟨index, child, rfl, isChild, isTest⟩
  have isTarget : child.isOneOf grammar.targets = true := by
    apply List.any_eq_true.mpr
    exact ⟨grammar.test, by decide, by simpa [isOneOf] using isTest⟩
  refine ⟨0, _, [2, index + 1], ?_, rfl, .descend (by decide) rfl (.descend (by decide) isChild
    (.here isTarget))⟩
  rw [Nat.add_comm 1 index]
  rfl

/-- Whether an atom is a list of targets in brackets. -/
theorem settles_bracketedList
    (reaches : Reaches tree [position] places (.branch grammar.atom (first :: rest))) :
    (Verdict.all
      [tree.toElement.lengthIs [position] (· = 4),
       tree.toElement.kindIn [position, 1] [Kind.leftParenthesis, Kind.leftBracket],
       tree.toElement.kindIn [position, 2] grammar.bracketed,
       tree.toElement.kindIn [position, 3] [Kind.rightParenthesis, Kind.rightBracket]]).Settles
      (∃ second third, rest = [second, third] ∧ second.isOneOf grammar.bracketed = true) := by
  refine Verdict.settles_cons (reaches.settles_lengthIs _) fun isLong => ?_
  have count : rest.length = 2 := by
    simpa using isLong
  rcases List.length_eq_two.mp count with ⟨second, third, rfl⟩
  refine Verdict.settles_cons ((reaches.trans (reaches_child 0 rfl)).settles_kindIn _) fun _ => ?_
  refine Verdict.settles_cons ((reaches.trans (reaches_child 1 rfl)).settles_kindIn _)
    fun isMembers => ?_
  refine Verdict.settles_cons ((reaches.trans (reaches_child 2 rfl)).settles_kindIn _) fun _ => ?_
  exact Verdict.settles_nil ⟨second, third, rfl, isMembers⟩

theorem bareTarget_targetNotes
    (allSound : (branch grammar.power [branch grammar.atom (first :: rest)]).AllSound) (path : Path) :
    TargetNotes path [.branch grammar.atom (first :: rest)]
      (Plan.bareTarget .version3 path
        (branch grammar.power [.branch grammar.atom (first :: rest)]).toElement) := by
  have reachesAtom : Reaches (branch grammar.power [.branch grammar.atom (first :: rest)]) [1] [1]
      (.branch grammar.atom (first :: rest)) := reaches_child 0 rfl
  have isName := Verdict.settles_cons (reachesAtom.settles_lengthIs (· = 2)) fun _ =>
    Verdict.settles_cons ((reachesAtom.trans (reaches_child 0 rfl)).settles_kindIs Kind.name)
      fun isName => Verdict.settles_nil isName
  unfold Plan.bareTarget
  refine isName.branch ?_ ((settles_bracketedList reachesAtom).branch ?_ (targetNotes_nil path _))
  · intro isName
    exact (markable_atom rfl isName).targetNotes (not_called_of_none rfl) path
  · rintro ⟨second, third, rfl, isMembers⟩
    have atomSound : (branch grammar.atom [first, second, third]).AllSound := allSound.child (by simp)
    exact members_targetNotes (atomSound.child (by simp)) isMembers path

/-- Whether a primary is a name with one subscript. -/
theorem settles_isSubscriptedName (allSound : (branch grammar.power children).AllSound) :
    (Plan.isSubscriptedName .version3 (branch grammar.power children).toElement).Settles
      (Markable children [1, 1] [1, 1] ∧ ¬ Called children 0) := by
  unfold Plan.isSubscriptedName
  refine Verdict.settles_cons (Verdict.settles_ok _) fun isLong => ?_
  have count : children.length = 2 := by
    simpa [length_elements] using isLong
  rcases List.length_eq_two.mp count with ⟨name, subscript, rfl⟩
  have reachesName : Reaches (branch grammar.power [name, subscript]) [1] [1] name :=
    reaches_child 0 rfl
  have reachesSubscript : Reaches (branch grammar.power [name, subscript]) [2] [2] subscript :=
    reaches_child 1 rfl
  have subscriptSound : subscript.AllSound := allSound.child (by simp)
  refine Verdict.settles_cons (reachesName.settles_kindIs _) fun isAtom => ?_
  rcases exists_atom (allSound.child (by simp)) isAtom with ⟨first, rest, rfl⟩
  refine Verdict.settles_cons (reachesName.settles_lengthIs _) fun _ => ?_
  refine Verdict.settles_cons ((reachesName.trans (reaches_child 0 rfl)).settles_kindIs _)
    fun isName => ?_
  refine Verdict.settles_cons (reachesSubscript.settles_lengthIs _) fun _ => ?_
  refine (settles_bracketed reachesSubscript subscriptSound Kind.leftBracket
    Kind.rightBracket).imp ?_
  rintro ⟨opening, more, rfl, opens⟩
  exact ⟨markable_atom rfl isName, not_called_of_subscript rfl opens⟩

/-- Whether a part of a primary is an attribute, for a part counted from the end. -/
theorem settles_isAttribute (allSound : (branch grammar.power children).AllSound) (back : Nat)
    (positive : 0 < back) (count : children.length = index + back) :
    (Plan.isAttribute .version3 (branch grammar.power children).toElement (-(back : Int))).Settles
      (Markable children [-(back : Int), 2] [index + 1, 2]) := by
  have inside : index < children.length := by omega
  have isPart : children[index]? = some (children[index]) := List.getElem?_eq_getElem _
  generalize children[index] = part at isPart
  have reaches : Reaches (branch grammar.power children) [-(back : Int)] [index + 1] part :=
    reaches_back back positive count isPart
  unfold Plan.isAttribute
  refine Verdict.settles_cons (reaches.settles_lengthIs _) fun _ => ?_
  refine (settles_attribute reaches (allSound.child (List.mem_of_getElem? isPart))).imp ?_
  rintro ⟨first, named, rest, rfl, isName⟩
  exact markable_trailer isPart reaches isName

/-- Whether the last part of a primary is a subscript. -/
theorem settles_endsInSubscript (allSound : (branch grammar.power children).AllSound)
    (count : children.length = index + 2) :
    (Plan.endsInSubscript .version3 (branch grammar.power children).toElement).Settles
      (¬ Called children index) := by
  have inside : index + 1 < children.length := by omega
  have isLast : children[index + 1]? = some (children[index + 1]) := List.getElem?_eq_getElem _
  generalize children[index + 1] = last at isLast
  have reaches : Reaches (branch grammar.power children) [-1] [index + 1 + 1] last :=
    reaches_back 1 Nat.one_pos count isLast
  unfold Plan.endsInSubscript
  refine Verdict.settles_cons (reaches.settles_lengthIs _) fun _ => ?_
  refine (settles_bracketed reaches (allSound.child (List.mem_of_getElem? isLast)) Kind.leftBracket
    Kind.rightBracket).imp ?_
  rintro ⟨opening, more, rfl, opens⟩
  exact not_called_of_subscript isLast opens

/-- Whether a primary is an atom and nothing else. -/
theorem settles_isBare (allSound : (branch grammar.power children).AllSound) :
    (Verdict.all
      [.ok ((branch grammar.power children).size = 2),
       (branch grammar.power children).toElement.kindIs [1] grammar.atom]).Settles
      (∃ first rest, children = [.branch grammar.atom (first :: rest)]) := by
  refine Verdict.settles_cons (Verdict.settles_ok _) fun isShort => ?_
  have count : children.length = 1 := by simpa using isShort
  rcases List.length_eq_one_iff.mp count with ⟨only, rfl⟩
  have reaches : Reaches (branch grammar.power [only]) [1] [1] only := reaches_child 0 rfl
  refine Verdict.settles_cons (reaches.settles_kindIs _) fun isAtom => ?_
  rcases exists_atom (allSound.child (by simp)) isAtom with ⟨first, rest, rfl⟩
  exact Verdict.settles_nil ⟨first, rest, rfl⟩

/-- Whether an attribute comes last in a primary. -/
theorem settles_endsInAttribute (allSound : (branch grammar.power children).AllSound) :
    (Verdict.all
      [.ok (3 ≤ (branch grammar.power children).size),
       Plan.isAttribute .version3 (branch grammar.power children).toElement (-1)]).Settles
      (∃ index, Markable children [-1, 2] [index + 1, 2] ∧ ¬ Called children index) := by
  refine Verdict.settles_cons (Verdict.settles_ok _) fun isLong => ?_
  have atLeast : 3 ≤ children.length + 1 := of_decide_eq_true isLong
  have count : children.length = children.length - 1 + 1 := by omega
  refine Verdict.settles_cons (settles_isAttribute allSound 1 Nat.one_pos count) fun markable => ?_
  refine Verdict.settles_nil ⟨_, markable, not_called_of_none ?_⟩
  rw [← count]
  exact List.getElem?_eq_none (Nat.le_refl _)

/-- Whether an attribute and a subscript of it come last in a primary. -/
theorem settles_endsInElement (allSound : (branch grammar.power children).AllSound) :
    (Verdict.all
      [.ok (4 ≤ (branch grammar.power children).size),
       Plan.isAttribute .version3 (branch grammar.power children).toElement (-2),
       Plan.endsInSubscript .version3 (branch grammar.power children).toElement]).Settles
      (∃ index, Markable children [-2, 2] [index + 1, 2] ∧ ¬ Called children index) := by
  refine Verdict.settles_cons (Verdict.settles_ok _) fun isLong => ?_
  have atLeast : 4 ≤ children.length + 1 := of_decide_eq_true isLong
  have count : children.length = children.length - 2 + 2 := by omega
  refine Verdict.settles_cons (settles_isAttribute allSound 2 Nat.two_pos count) fun markable => ?_
  refine Verdict.settles_cons (settles_endsInSubscript allSound count) fun notCalled => ?_
  exact Verdict.settles_nil ⟨_, markable, notCalled⟩

/-- A primary that is assigned to notes what is assigned to. -/
theorem target_targetNotes (allSound : (branch grammar.power children).AllSound) (path : Path) :
    TargetNotes path children
      (Plan.target .version3 path (branch grammar.power children).toElement) := by
  unfold Plan.target
  simp only [length_elements]
  refine (settles_isBare allSound).branch ?_ ((settles_isSubscriptedName allSound).branch ?_
    ((settles_endsInAttribute allSound).branch ?_ ((settles_endsInElement allSound).branch ?_
      (targetNotes_nil path children))))
  · rintro ⟨first, rest, rfl⟩
    exact bareTarget_targetNotes allSound path
  · rintro ⟨markable, notCalled⟩
    exact markable.targetNotes notCalled path
  · rintro ⟨index, markable, notCalled⟩
    exact markable.targetNotes notCalled path
  · rintro ⟨index, markable, notCalled⟩
    exact markable.targetNotes notCalled path

end Tree

namespace State

variable {before : State} {path : Path} {role : Tree.Role} {children : List Tree}

/-- A primary can be entered: it marks what is assigned to and what is called, which are different
names. -/
theorem enters_power (expects : before.Expects path role (.branch Tree.grammar.power children))
    (idle : before.Idle) (allSound : (Tree.branch Tree.grammar.power children).AllSound) :
    ∃ after, before.takeAll .version3
        ((if before.assigning then
            .settle :: Plan.target .version3 path
              (Tree.branch Tree.grammar.power children).toElement
          else []) ++
          Plan.calls .version3 path (Tree.branch Tree.grammar.power children).toElement) =
        ⟨after, none⟩ ∧
      before.Enters path Tree.grammar.power children after := by
  have settled (middle : State) (notAssigning : middle.assigning = false) :
      (middle.assigning && !children.any (Tree.holds Tree.grammar.power)) =
        (before.assigning && !(Tree.branch Tree.grammar.power children).holds Tree.grammar.power) := by
    simp [Tree.holds_branch, notAssigning]
  rcases Tree.calls_notes allSound path with ⟨calls, callNotes, callsOnce, areCalls⟩
  have callsHold : ∀ place mark, (place, mark) ∈ calls →
      Tree.HoldsBelow Tree.grammar.power children place := by
    intro place mark member
    rcases areCalls place mark member with ⟨_, _, _, _, holds⟩
    exact holds
  cases assigning : before.assigning with
  | false =>
      have starts : Starts before Tree.grammar.power children [] before :=
        ⟨rfl, rfl, by simp [assigning], settled before assigning, idle⟩
      exact expects.enters_notes allSound.sound (by decide) (by decide) (by decide) starts callNotes
        callsOnce callsHold (by simp)
  | true =>
      rcases Tree.target_targetNotes allSound path with
        ⟨targets, awaited, targetNotes, targetsOnce, areTargets, awaits⟩
      have starts : Starts before Tree.grammar.power children awaited
          { before with assigning := false } :=
        ⟨rfl, rfl, by simp, settled _ rfl, ⟨idle.importing, idle.halves⟩⟩
      have notes := targetNotes.append callNotes
      rw [List.append_nil] at notes
      have once : ((targets ++ calls).map Prod.fst).Nodup := by
        apply Plan.nodup_append targetsOnce callsOnce
        intro place mark other noted member otherMember same
        rcases areTargets place mark member with ⟨index, position, isPlace, notCalled, _⟩
        rcases areCalls other noted otherMember with ⟨otherIndex, _, isOther, called, _⟩
        have heads : index = otherIndex := by
          simp only [isPlace, isOther, List.cons.injEq, Nat.add_right_cancel_iff] at same
          exact same.1
        rw [heads] at notCalled
        exact notCalled called
      have hold : ∀ place mark, (place, mark) ∈ targets ++ calls →
          Tree.HoldsBelow Tree.grammar.power children place := by
        intro place mark member
        rcases List.mem_append.mp member with isTarget | isCall
        · rcases areTargets place mark isTarget with ⟨_, _, _, _, holds⟩
          exact holds
        · exact callsHold place mark isCall
      have entered := expects.enters_notes allSound.sound (by decide) (by decide) (by decide) starts
        notes once hold awaits
      exact entered

end State

end CrossRef
