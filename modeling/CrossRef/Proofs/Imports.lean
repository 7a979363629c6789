import CrossRef.Proofs.Expectations

/-!
# Entering imports

An import from a module marks every part of the module's dotted name, which the dotted name finds
when the walk comes to it.
-/

namespace CrossRef

namespace State

open CrossRef.Tree (positioned)

variable {before : State} {path : Path} {role : Tree.Role} {children : List Tree} {awaited : List Path}

/-- The parts of a dotted name can all hold a mark. -/
theorem separated_markable {parts : List Tree}
    (separates : Tree.separated (Tree.isOf Kind.name) (Tree.isOf Kind.dot) parts = true) :
    ∀ part ∈ parts, part.isOneOf Grammar.version3.markable = true := by
  intro part member
  rcases Tree.separated_all parts separates part member with isName | isDot
  · exact Tree.markable_of_isName isName
  · simp [Tree.isOneOf, Grammar.version3, isDot]

/-- The marks that make a module of a dotted name with so many parts. -/
def moduleMarks (start count : Nat) : List (Path × Mark) :=
  (List.range' start count).map fun position => ([position], .inclusion)

theorem mem_moduleMarks {start count : Nat} {place : Path} {mark : Mark} :
    (place, mark) ∈ moduleMarks start count ↔
      ∃ index, index < count ∧ place = [start + index] ∧ mark = .inclusion := by
  simp only [moduleMarks, List.mem_map, List.mem_range'_1, Prod.mk.injEq]
  constructor
  · rintro ⟨position, ⟨low, high⟩, rfl, rfl⟩
    refine ⟨position - start, by omega, ?_, rfl⟩
    congr 1
    omega
  · rintro ⟨index, inside, rfl, rfl⟩
    exact ⟨start + index, by omega, rfl, rfl⟩

/-- The marks of a module whose dotted name stands at some place. -/
theorem mem_moduleMarks_below (base : Path) (count : Nat) (place : Path) (mark : Mark) :
    (place, mark) ∈ ((moduleMarks 1 count).map fun entry => (base ++ entry.1, entry.2)) ↔
      ∃ index, index < count ∧ place = base ++ [index + 1] ∧ mark = .inclusion := by
  constructor
  · intro member
    rcases List.mem_map.mp member with ⟨⟨inner, noted⟩, inMarks, same⟩
    cases same
    rcases mem_moduleMarks.mp inMarks with ⟨index, inside, rfl, rfl⟩
    exact ⟨index, inside, by rw [Nat.add_comm 1 index], rfl⟩
  · rintro ⟨index, inside, rfl, rfl⟩
    apply List.mem_map.mpr
    exact ⟨([1 + index], .inclusion), mem_moduleMarks.mpr ⟨index, inside, rfl, rfl⟩,
      by rw [Nat.add_comm 1 index]⟩

theorem moduleMarks_nodup (start count : Nat) : ((moduleMarks start count).map Prod.fst).Nodup := by
  have unique : (List.range' start count).Nodup := List.nodup_range'
  rw [moduleMarks, List.map_map]
  refine List.Pairwise.map _ ?_ unique
  intro first second differ same
  exact differ (List.singleton_inj.mp same)

theorem markParts_notes (path : Path) : ∀ (trees : List Tree) (start : Nat),
    (∀ tree ∈ trees, tree.isOneOf Grammar.version3.markable = true) →
    Plan.Notes path
      ((positioned start trees).map fun (position, terminal) =>
        .mark (path ++ [position]) terminal .inclusion)
      (moduleMarks start trees.length) []
  | [], _, _ => .nil
  | first :: rest, start, markable => by
      rw [moduleMarks, List.length_cons, List.range'_succ]
      exact .mark [start] first .inclusion (markable first List.mem_cons_self)
        (markParts_notes path rest (start + 1) fun tree member =>
          markable tree (List.mem_cons_of_mem first member))

theorem markAll_notes {parts : List Tree}
    (sound : (Tree.branch Tree.grammar.dottedName parts).sound = true) (path : Path) :
    Plan.Notes path
      (Plan.markAll path (Tree.branch Tree.grammar.dottedName parts).toElement .inclusion)
      (moduleMarks 1 parts.length) [] := by
  have production : Tree.separated (Tree.isOf Kind.name) (Tree.isOf Kind.dot) parts = true :=
    Tree.production_holds sound
  unfold Plan.markAll
  rw [Tree.numbered_branch, List.drop_zero]
  exact markParts_notes path parts 1 (separated_markable production)

theorem moduleName_cons (path : Path) (sort : String) (position : Nat) (tree : Tree)
    (rest : List (Nat × Element)) :
    Plan.moduleName .version3 path sort ((position, tree.toElement) :: rest) =
      if tree.isOneOf Tree.grammar.relativeDots then Plan.moduleName .version3 path sort rest
      else if tree.isOf Tree.grammar.dottedName then
        Plan.markAll (path ++ [position]) tree.toElement .inclusion
      else [] := by
  simp only [Plan.moduleName, Tree.kind_toElement]
  rfl

/-- The module of an import is the dotted name behind the dots, if there is one. -/
theorem moduleName_cases (path : Path) (sort : String) : ∀ (trees : List Tree) (start : Nat),
    trees.dropWhile (Tree.isOneOf Tree.grammar.relativeDots) ≠ [] →
    (∀ tree ∈ trees, tree.AllSound) →
    Plan.moduleName .version3 path sort (positioned start trees) = [] ∨
      ∃ index parts, trees[index]? = some (.branch Tree.grammar.dottedName parts) ∧
        Plan.moduleName .version3 path sort (positioned start trees) =
          Plan.markAll (path ++ [start + index])
            (Tree.branch Tree.grammar.dottedName parts).toElement .inclusion
  | [], _, nonempty, _ => absurd rfl nonempty
  | first :: rest, start, nonempty, allSound => by
      rw [positioned, moduleName_cons]
      cases isDot : first.isOneOf Tree.grammar.relativeDots with
      | true =>
          rw [List.dropWhile_cons_of_pos isDot] at nonempty
          rcases moduleName_cases path sort rest (start + 1) nonempty fun tree member =>
            allSound tree (List.mem_cons_of_mem first member) with
            nothing | ⟨index, parts, isChild, plan⟩
          · exact Or.inl nothing
          · refine Or.inr ⟨index + 1, parts, isChild, ?_⟩
            rw [Nat.add_right_comm] at plan
            exact plan
      | false =>
          cases isDotted : first.isOf Tree.grammar.dottedName with
          | true =>
              rcases Tree.exists_branch (allSound first List.mem_cons_self).sound isDotted (by decide)
                with ⟨parts, rfl⟩
              exact Or.inr ⟨0, parts, rfl, rfl⟩
          | false => exact Or.inl rfl

/-- The marks of a module are what its dotted name finds. -/
theorem Noted.included {middle after : State} {marks : List (Path × Mark)} {base : Path}
    {parts : List Tree} (noted : middle.Noted path marks awaited after)
    (unlabelled : ∀ place, middle.labelAt? (path ++ place) = none)
    (isModule : ∀ place mark, (place, mark) ∈ marks ↔
      ∃ index, index < parts.length ∧ place = base ++ [index + 1] ∧ mark = .inclusion) :
    after.Included (path ++ base) parts := by
  constructor
  · intro index inside
    rw [List.append_assoc]
    exact noted.marked _ _ ((isModule _ _).mpr ⟨index, inside, rfl, rfl⟩)
  · intro place isLabelled
    rw [List.append_assoc] at isLabelled
    rcases noted.mem_of_labelled (unlabelled _) isLabelled with ⟨mark, member⟩
    rcases (isModule _ mark).mp member with ⟨index, inside, isPlace, _⟩
    exact ⟨index, inside, List.append_cancel_left isPlace⟩

theorem enters_importFrom
    (expects : before.Expects path role (.branch Tree.grammar.importFrom children))
    (idle : before.Idle) (allSound : (Tree.branch Tree.grammar.importFrom children).AllSound) :
    ∃ after, before.takeAll .version3
        (Plan.importFrom .version3 path (Tree.branch Tree.grammar.importFrom children).toElement) =
        ⟨after, none⟩ ∧
      before.Enters path Tree.grammar.importFrom children after := by
  have production : Tree.importsFrom children = true := Tree.production_holds allSound.sound
  have starts : Starts before Tree.grammar.importFrom children [] before :=
    starts_same idle (by decide) fun _ => rfl
  have unlabelled := expects.unlabelled allSound.sound (by decide)
  cases children with
  | nil => cases production
  | cons first rest =>
      have nonempty : rest.dropWhile (Tree.isOneOf Tree.grammar.relativeDots) ≠ [] := by
        intro empty
        simp [Tree.importsFrom, empty] at production
      have restSound : ∀ tree ∈ rest, tree.AllSound := fun tree member =>
        allSound.child (List.mem_cons_of_mem first member)
      unfold Plan.importFrom
      rw [Tree.numbered_branch, List.drop_one, List.tail_cons]
      rcases moduleName_cases path
        (Tree.branch Tree.grammar.importFrom (first :: rest)).toElement.sort rest 2 nonempty restSound
        with plan | ⟨index, parts, isChild, plan⟩
      · rw [plan]
        exact expects.enters_notes allSound.sound (by decide) (by decide) (by decide) starts .nil
          (by simp) (by simp) (by simp)
      · have dottedSound := restSound _ (List.mem_of_getElem? isChild)
        have notes := (markAll_notes dottedSound.sound (path ++ [2 + index])).rebase
        rw [← plan] at notes
        rcases takeAll_notes notes (fun place _ _ => unlabelled place)
          (Plan.nodup_rebase _ (moduleMarks_nodup 1 parts.length)) with ⟨after, taken, noted⟩
        have isModule (place : Path) (mark : Mark) :=
          mem_moduleMarks_below [2 + index] parts.length place mark
        have isIndex : index < rest.length := (List.getElem?_eq_some_iff.mp isChild).1
        refine ⟨after, taken, expects.enters_noted (by decide) (by decide) unlabelled starts noted
          ?_ ?_ (by simp)⟩
        · intro place mark member
          rcases (isModule place mark).mp member with ⟨part, _, rfl, _⟩
          refine ⟨index + 1, [part + 1], by simpa using isIndex, ?_⟩
          rw [Nat.add_comm 2 index]
          rfl
        · intro other child isOther
          by_cases isModuleChild : other = index + 1
          · subst isModuleChild
            have same : some child = some (.branch Tree.grammar.dottedName parts) :=
              isOther.symm.trans isChild
            cases same
            have included := noted.included unlabelled isModule
            rw [Nat.add_comm 2 index] at included
            exact Or.inr ⟨parts, rfl, included⟩
          · left
            intro place isLabelled
            rw [List.append_assoc] at isLabelled
            rcases noted.mem_of_labelled (unlabelled _) isLabelled with ⟨mark, member⟩
            rcases (isModule _ mark).mp member with ⟨part, _, isPlace, _⟩
            have heads : other + 1 = 2 + index := (List.cons.inj isPlace).1
            omega

end State

end CrossRef
