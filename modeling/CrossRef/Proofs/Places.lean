import CrossRef.Walk.Preorder
import Mathlib.Data.List.Nodup

/-!
# The places of a tree

A path leads to one place of a tree.  The nodes right below a node stand at different places, and
what lies below one of them shares no place with what lies below another, so the order of reading
names each node once, and of two nodes one lies below the other exactly if its path goes on from the
other's.
-/

namespace CrossRef

namespace Element

theorem mem_nodesFrom {path : Path} {position : Nat} {elements : List Element}
    {entry : Path × Element} :
    entry ∈ nodesFrom path position elements ↔
      ∃ index inner, elements[index]? = some (.node inner) ∧
        entry = (path ++ [position + index], .node inner) := by
  induction elements generalizing position with
  | nil => simp [nodesFrom]
  | cons first rest ih =>
      have later : (∃ index inner, rest[index]? = some (.node inner) ∧
          entry = (path ++ [position + 1 + index], .node inner)) ↔
          ∃ index inner, (first :: rest)[index + 1]? = some (.node inner) ∧
            entry = (path ++ [position + (index + 1)], .node inner) := by
        simp [Nat.add_comm, Nat.add_left_comm]
      constructor
      · intro member
        have isLater : entry ∈ nodesFrom path (position + 1) rest →
            ∃ index inner, (first :: rest)[index]? = some (.node inner) ∧
              entry = (path ++ [position + index], .node inner) := by
          intro inRest
          rcases later.mp (ih.mp inRest) with ⟨index, inner, found, isEntry⟩
          exact ⟨index + 1, inner, found, isEntry⟩
        cases first with
        | node inner =>
            rcases List.mem_cons.mp member with isFirst | inRest
            · exact ⟨0, inner, rfl, isFirst⟩
            · exact isLater inRest
        | null | bool value | int value | float value | text value | list elements =>
            exact isLater member
      · rintro ⟨index, inner, found, isEntry⟩
        cases index with
        | zero =>
            cases found
            simp [nodesFrom, isEntry]
        | succ index =>
            have inRest := ih.mpr (later.mpr ⟨index, inner, found, isEntry⟩)
            cases first with
            | node others => exact List.mem_cons_of_mem _ inRest
            | null | bool value | int value | float value | text value | list elements =>
                exact inRest

/-- The nodes right below a node are those among its elements behind the kind. -/
theorem mem_children {path : Path} {node : Element} {entry : Path × Element} :
    entry ∈ node.children path ↔
      ∃ index inner, node.elements[index + 1]? = some (.node inner) ∧
        entry = (path ++ [index + 1], .node inner) := by
  rw [children, mem_nodesFrom]
  simp [Nat.add_comm]

theorem weight_lt_of_mem_children {path : Path} {node : Element} {entry : Path × Element}
    (member : entry ∈ node.children path) : entry.2.weight < node.weight := by
  have bound := Agenda.weight_children_lt path node
  rcases List.append_of_mem member with ⟨early, late, isSplit⟩
  rw [isSplit, Agenda.weight_append] at bound
  simp only [Agenda.weight] at bound
  omega

/-- Induction over the nodes of a tree: what holds of a node if it holds of all nodes right below it,
holds of every node. -/
theorem induction_children {motive : Path → Element → Prop}
    (below : ∀ path node, (∀ entry ∈ node.children path, motive entry.1 entry.2) → motive path node)
    (path : Path) (node : Element) : motive path node := by
  apply below
  intro entry member
  have smaller := weight_lt_of_mem_children member
  exact induction_children below entry.1 entry.2
termination_by node.weight

theorem mem_preorder {path : Path} {node : Element} {entry : Path × Element} :
    entry ∈ node.preorder path ↔
      entry = (path, node) ∨ ∃ child ∈ node.children path, entry ∈ child.2.preorder child.1 := by
  rw [Agenda.preorder_children, List.mem_cons, Agenda.preorder, List.mem_flatMap]

theorem self_mem_preorder (path : Path) (node : Element) : (path, node) ∈ node.preorder path :=
  mem_preorder.mpr (Or.inl rfl)

/-- All places of a tree go on from that of its root. -/
theorem prefix_of_mem_preorder {path : Path} {node : Element} {entry : Path × Element}
    (member : entry ∈ node.preorder path) : path <+: entry.1 := by
  induction path, node using induction_children generalizing entry with
  | below path node ih =>
      rcases mem_preorder.mp member with rfl | ⟨child, isChild, inChild⟩
      · exact List.prefix_refl path
      · apply List.IsPrefix.trans _ (ih child isChild inChild)
        rcases mem_children.mp isChild with ⟨index, inner, _, rfl⟩
        exact List.prefix_append path [index + 1]

theorem mem_preorderFrom {path : Path} {position : Nat} {elements : List Element}
    {entry : Path × Element} :
    entry ∈ preorderFrom path position elements ↔
      ∃ index inner, elements[index]? = some (.node inner) ∧
        entry ∈ (Element.node inner).preorder (path ++ [position + index]) := by
  rw [← Agenda.preorder_nodesFrom, Agenda.preorder, List.mem_flatMap]
  constructor
  · rintro ⟨child, isChild, inChild⟩
    rcases mem_nodesFrom.mp isChild with ⟨index, inner, isElement, rfl⟩
    exact ⟨index, inner, isElement, inChild⟩
  · rintro ⟨index, inner, isElement, inChild⟩
    exact ⟨_, mem_nodesFrom.mpr ⟨index, inner, isElement, rfl⟩, inChild⟩

theorem prefix_of_mem_preorderFrom {path : Path} {position : Nat} {elements : List Element}
    {entry : Path × Element} (member : entry ∈ preorderFrom path position elements) :
    ∃ index < elements.length, path ++ [position + index] <+: entry.1 := by
  rcases mem_preorderFrom.mp member with ⟨index, inner, isElement, inChild⟩
  exact ⟨index, (List.getElem?_eq_some_iff.mp isElement).1, prefix_of_mem_preorder inChild⟩

/-- What lies below a node of a tree lies in the tree. -/
theorem mem_preorder_trans {path : Path} {node : Element} {middle entry : Path × Element}
    (inTree : middle ∈ node.preorder path) (below : entry ∈ middle.2.preorder middle.1) :
    entry ∈ node.preorder path := by
  induction path, node using induction_children with
  | below path node ih =>
      rcases mem_preorder.mp inTree with rfl | ⟨child, isChild, inChild⟩
      · exact below
      · exact mem_preorder.mpr (Or.inr ⟨child, isChild, ih child isChild inChild⟩)

theorem nodesFrom_ascending (path : Path) (position : Nat) (elements : List Element) :
    (nodesFrom path position elements).Pairwise fun first second =>
      ∃ left right, left < right ∧ first.1 = path ++ [left] ∧ second.1 = path ++ [right] := by
  induction elements generalizing position with
  | nil => exact List.Pairwise.nil
  | cons first rest ih =>
      cases first with
      | node inner =>
          apply List.Pairwise.cons _ (ih (position + 1))
          intro entry member
          rcases mem_nodesFrom.mp member with ⟨index, other, _, rfl⟩
          exact ⟨position, position + 1 + index, by omega, rfl, rfl⟩
      | null | bool value | int value | float value | text value | list elements =>
          exact ih (position + 1)

/-- Two places below different positions are not the same, and neither lies below the other. -/
theorem not_prefix_of_apart {path first second : Path} {left right : Nat} (apart : left ≠ right)
    (isFirst : path ++ [left] <+: first) (isSecond : path ++ [right] <+: second) :
    ¬ first <+: second := by
  intro goesOn
  have both := List.prefix_of_prefix_length_le (isFirst.trans goesOn) isSecond (by simp)
  have same := both.eq_of_length (by simp)
  exact apart (by simpa using same)

/-- A place comes before the places below it. -/
theorem lt_of_goes_on {path place : Path} {index : Nat} (goesOn : path ++ [index] <+: place) :
    path < place := by
  rcases goesOn with ⟨rest, rfl⟩
  have deeper : ([] : Path) < [index] ++ rest := List.nil_lt_cons index rest
  have further : path ++ [] < path ++ ([index] ++ rest) := List.append_left_lt deeper
  simpa using further

/-- What lies below an earlier position comes before what lies below a later one. -/
theorem lt_of_positions {path first second : Path} {left right : Nat} (before : left < right)
    (isFirst : path ++ [left] <+: first) (isSecond : path ++ [right] <+: second) : first < second := by
  rcases isFirst with ⟨more, rfl⟩
  rcases isSecond with ⟨others, rfl⟩
  simp only [List.append_assoc]
  apply List.append_left_lt
  simpa using List.cons_lt_cons_iff.mpr (Or.inl before)

/-- Trees that stand at ascending positions are read one behind the other, so their places ascend if
those of each tree do. -/
theorem ascending_of_nodesFrom {path : Path} {position : Nat} {elements : List Element}
    (each : ∀ entry ∈ nodesFrom path position elements,
      ((entry.2.preorder entry.1).map Prod.fst).Pairwise (· < ·)) :
    ((Agenda.preorder (nodesFrom path position elements)).map Prod.fst).Pairwise (· < ·) := by
  rw [Agenda.preorder, List.map_flatMap, List.pairwise_flatMap]
  refine ⟨each, (nodesFrom_ascending path position elements).imp ?_⟩
  rintro first second ⟨left, right, before, isLeft, isRight⟩
  intro place inFirst other inSecond
  rcases List.mem_map.mp inFirst with ⟨entry, member, rfl⟩
  rcases List.mem_map.mp inSecond with ⟨later, otherMember, rfl⟩
  have leads := prefix_of_mem_preorder member
  have otherLeads := prefix_of_mem_preorder otherMember
  rw [isLeft] at leads
  rw [isRight] at otherLeads
  exact lt_of_positions before leads otherLeads

/-- The order of reading is the order of the places: a place comes before all that go on from it, and
of two others the one that goes further left comes first. -/
theorem preorder_ascending (path : Path) (node : Element) :
    ((node.preorder path).map Prod.fst).Pairwise (· < ·) := by
  induction path, node using induction_children with
  | below path node ih =>
      rw [Agenda.preorder_children, List.map_cons, List.pairwise_cons]
      refine ⟨?_, ascending_of_nodesFrom ih⟩
      intro place member
      rcases List.mem_map.mp member with ⟨entry, inBelow, rfl⟩
      rcases List.mem_flatMap.mp inBelow with ⟨child, isChild, inChild⟩
      have goesOn := prefix_of_mem_preorder inChild
      rcases mem_children.mp isChild with ⟨index, inner, _, rfl⟩
      exact lt_of_goes_on goesOn

theorem preorderFrom_ascending (path : Path) (position : Nat) (elements : List Element) :
    ((preorderFrom path position elements).map Prod.fst).Pairwise (· < ·) := by
  rw [← Agenda.preorder_nodesFrom]
  exact ascending_of_nodesFrom fun entry _ => preorder_ascending entry.1 entry.2

/-- The order of reading names each place once. -/
theorem preorder_nodup (path : Path) (node : Element) :
    ((node.preorder path).map Prod.fst).Nodup :=
  (preorder_ascending path node).nodup

theorem preorderFrom_nodup (path : Path) (position : Nat) (elements : List Element) :
    ((preorderFrom path position elements).map Prod.fst).Nodup :=
  (preorderFrom_ascending path position elements).nodup

theorem nodesFrom_append (path : Path) (position : Nat) (first second : List Element) :
    nodesFrom path position (first ++ second) =
      nodesFrom path position first ++ nodesFrom path (position + first.length) second := by
  induction first generalizing position with
  | nil => rfl
  | cons element rest ih =>
      have later := ih (position + 1)
      rw [Nat.add_right_comm] at later
      cases element with
      | node elements => simp [nodesFrom, later, Nat.add_assoc]
      | null | bool value | int value | float value | text value | list elements =>
          simp [nodesFrom, later, Nat.add_assoc]

theorem preorderFrom_append (path : Path) (position : Nat) (first second : List Element) :
    preorderFrom path position (first ++ second) =
      preorderFrom path position first ++ preorderFrom path (position + first.length) second := by
  simp only [← Agenda.preorder_nodesFrom, nodesFrom_append, Agenda.preorder, List.flatMap_append]

/-- What lies below a node comes in one piece in the order of reading. -/
theorem preorder_split {path : Path} {node : Element} {entry : Path × Element}
    (member : entry ∈ node.preorder path) :
    ∃ early late, node.preorder path = early ++ (entry.2.preorder entry.1 ++ late) := by
  induction path, node using induction_children with
  | below path node ih =>
      rcases mem_preorder.mp member with rfl | ⟨child, isChild, inChild⟩
      · exact ⟨[], [], by simp⟩
      · rcases ih child isChild inChild with ⟨early, late, inner⟩
        rcases List.append_of_mem isChild with ⟨before, behind, isSplit⟩
        refine ⟨(path, node) :: (Agenda.preorder before ++ early), late ++ Agenda.preorder behind, ?_⟩
        rw [Agenda.preorder_children, isSplit]
        simp [Agenda.preorder, inner]

/-- A place of a tree holds one node. -/
theorem eq_of_mem_preorder {path place : Path} {node first second : Element}
    (isFirst : (place, first) ∈ node.preorder path)
    (isSecond : (place, second) ∈ node.preorder path) : first = second := by
  have same := List.inj_on_of_nodup_map (preorder_nodup path node) isFirst isSecond rfl
  exact (Prod.mk.inj same).2

/-- A node comes once in the order of reading. -/
theorem split_unique {path : Path} {node : Element} {entry : Path × Element}
    {early late before behind : List (Path × Element)}
    (isSplit : node.preorder path = early ++ entry :: late)
    (other : node.preorder path = before ++ entry :: behind) : early = before ∧ late = behind := by
  have once := (preorder_nodup path node).of_map
  rw [isSplit, List.nodup_middle, List.nodup_cons, List.mem_append, not_or] at once
  have same := (List.append_cons_inj_of_notMem once.1.1 once.1.2).mp (isSplit.symm.trans other)
  exact ⟨same.1, same.2.2⟩

end Element

end CrossRef
