import CrossRef.Discovery
import CrossRef.Proofs.PathNames
import Mathlib.Data.List.Forall2

/-!
# Files that are found

A search of a directory follows the listings downwards.  What it finds is said here without the search:
an entry belongs to it exactly if some names lead to the entry from the directory, and the order is that
of the listings in the directory where two ways part.  In directories whose entries have distinct names,
a found path leads back to the entry that it was found as, so nothing is found twice.
-/

namespace CrossRef

namespace Storage

namespace Entry

mutual

/-- Whether all directories of a tree list distinct names. -/
def isProper : Entry → Bool
  | .directory _ entries => allProper entries
  | .file .. | .sealed .. => true

/-- Whether a listing and all listings below it have distinct names. -/
def allProper : List Entry → Bool
  | [] => true
  | entry :: rest =>
    isName entry.name && entry.isProper && rest.all (fun other => other.name ≠ entry.name) &&
      allProper rest

end

mutual

/-- Induction over the entries of a tree. -/
theorem induction {motive : Entry → Prop}
    (leaf : ∀ entry, entry.isDirectory = false → motive entry)
    (directory : ∀ name entries, (∀ entry ∈ entries, motive entry) → motive (.directory name entries)) :
    ∀ entry, motive entry
  | .directory name entries => directory name entries (induction_each leaf directory entries)
  | .file name text => leaf (.file name text) rfl
  | .sealed name errno => leaf (.sealed name errno) rfl

theorem induction_each {motive : Entry → Prop}
    (leaf : ∀ entry, entry.isDirectory = false → motive entry)
    (directory : ∀ name entries, (∀ entry ∈ entries, motive entry) → motive (.directory name entries)) :
    ∀ entries : List Entry, ∀ entry ∈ entries, motive entry
  | [] => List.forall_mem_nil motive
  | first :: rest =>
    List.forall_mem_cons.mpr ⟨induction leaf directory first, induction_each leaf directory rest⟩

end

theorem allProper_cons {entry : Entry} {rest : List Entry} :
    allProper (entry :: rest) = true ↔
      isName entry.name = true ∧ entry.isProper = true ∧ (∀ other ∈ rest, other.name ≠ entry.name) ∧
        allProper rest = true := by
  simp [allProper, and_assoc]

theorem allProper_mem {entries : List Entry} (proper : allProper entries = true) {entry : Entry}
    (member : entry ∈ entries) : isName entry.name = true ∧ entry.isProper = true := by
  induction entries with
  | nil => cases member
  | cons first rest ih =>
      rcases allProper_cons.mp proper with ⟨isName, isProper, _, others⟩
      rcases List.mem_cons.mp member with rfl | inRest
      · exact ⟨isName, isProper⟩
      · exact ih others inRest

theorem names_nodup {entries : List Entry} (proper : allProper entries = true) :
    (entries.map name).Nodup := by
  induction entries with
  | nil => exact List.nodup_nil
  | cons first rest ih =>
      rcases allProper_cons.mp proper with ⟨_, _, distinct, others⟩
      rw [List.map_cons, List.nodup_cons]
      refine ⟨?_, ih others⟩
      intro again
      rcases List.mem_map.mp again with ⟨other, member, same⟩
      exact distinct other member same

/-- An entry of a listing is found by its name. -/
theorem find?_eq_some_iff {entries : List Entry} (proper : allProper entries = true) {name : String}
    {entry : Entry} :
    entries.find? (·.name = name) = some entry ↔ entry ∈ entries ∧ entry.name = name := by
  constructor
  · intro found
    have isNamed := List.find?_some found
    exact ⟨List.mem_of_find?_eq_some found, of_decide_eq_true isNamed⟩
  · rintro ⟨member, rfl⟩
    induction entries with
    | nil => cases member
    | cons first rest ih =>
        rcases allProper_cons.mp proper with ⟨_, _, distinct, others⟩
        rcases List.mem_cons.mp member with rfl | inRest
        · simp
        · rw [List.find?_cons_of_neg]
          · exact ih others inRest
          · simpa using Ne.symm (distinct entry inRest)

/-- What some names lead to is what the later ones lead to from where the first ones lead. -/
theorem descend_append (entry : Entry) (first second : List String) :
    entry.descend (first ++ second) =
      match entry.descend first with
      | .ok inner => inner.descend second
      | .error errno => .error errno := by
  induction first generalizing entry with
  | nil => simp [descend]
  | cons name rest ih =>
      cases entry with
      | directory own entries =>
          simp only [List.cons_append, descend]
          cases entries.find? (·.name = name) with
          | none => rfl
          | some child => exact ih child
      | file | «sealed» => simp [descend]

theorem descend_cons_eq_ok_iff {own : String} {entries : List Entry} (proper : allProper entries = true)
    {name : String} {rest : List String} {target : Entry} :
    (Entry.directory own entries).descend (name :: rest) = .ok target ↔
      ∃ child ∈ entries, child.name = name ∧ child.descend rest = .ok target := by
  simp only [descend]
  constructor
  · intro leads
    split at leads
    next child found =>
      rcases (find?_eq_some_iff proper).mp found with ⟨member, isNamed⟩
      exact ⟨child, member, isNamed, leads⟩
    next => cases leads
  · rintro ⟨child, member, isNamed, leads⟩
    rw [(find?_eq_some_iff proper).mpr ⟨member, isNamed⟩]
    exact leads

/-- Only directories lead anywhere. -/
theorem descend_eq_ok_of_leaf {entry target : Entry} (leaf : entry.isDirectory = false)
    {names : List String} : entry.descend names = .ok target ↔ names = [] ∧ target = entry := by
  cases names with
  | nil => simp [descend, eq_comm]
  | cons name rest =>
      cases entry with
      | directory => cases leaf
      | file | «sealed» => simp [descend]

/-- Names that lead somewhere in a proper tree lead to a proper part of it. -/
theorem descend_proper {entry target : Entry} (proper : entry.isProper = true) {names : List String}
    (leads : entry.descend names = .ok target) :
    target.isProper = true ∧ ∀ name ∈ names, isName name = true := by
  induction names generalizing entry with
  | nil =>
      cases leads
      exact ⟨proper, by simp⟩
  | cons name rest ih =>
      cases entry with
      | directory own entries =>
          rw [isProper] at proper
          rcases (descend_cons_eq_ok_iff proper).mp leads with ⟨child, member, rfl, onwards⟩
          rcases allProper_mem proper member with ⟨isName, isProper⟩
          rcases ih isProper onwards with ⟨properTarget, names⟩
          exact ⟨properTarget, List.forall_mem_cons.mpr ⟨isName, names⟩⟩
      | file | «sealed» => cases leads

/-- What the parts of a path lead to is what the later ones lead to from where the first ones lead. -/
theorem follow_append (root : Entry) (names first second : List String) :
    root.follow names (first ++ second) =
      match root.follow names first with
      | .ok inner => root.follow inner second
      | .error errno => .error errno := by
  induction first generalizing names with
  | nil => rfl
  | cons part rest ih =>
      simp only [List.cons_append, follow]
      cases root.descend names with
      | error errno => rfl
      | ok entry =>
          cases entry with
          | directory => exact ih (stepPart names part)
          | file | «sealed» => rfl

theorem follow_part {root : Entry} {names : List String} {own : String} {entries : List Entry}
    (isDirectory : root.descend names = .ok (.directory own entries)) (part : String) :
    root.follow names [part] = .ok (stepPart names part) := by
  rw [follow, isDirectory]
  rfl

/-- An empty part leads nowhere else. -/
theorem eq_of_follow_empty {root : Entry} {names reached : List String}
    (leads : root.follow names [""] = .ok reached) : reached = names := by
  rw [follow] at leads
  split at leads
  · cases leads
    rfl
  · cases leads
  · cases leads

/-- The name of an entry behind a path to a directory leads on from where the path leads. -/
theorem follow_join {root : Entry} {directory own : String} {names : List String} {entries : List Entry}
    (leads : root.follow [] (partsOf directory) = .ok names)
    (isDirectory : root.descend names = .ok (.directory own entries)) {name : String}
    (proper : isName name = true) :
    root.follow [] (partsOf (join directory name)) = .ok (names ++ [name]) := by
  have behindFront {front : List String} (early : root.follow [] front = .ok names) :
      root.follow [] (front ++ [name]) = .ok (names ++ [name]) := by
    rw [follow_append, early]
    exact (follow_part isDirectory name).trans (congrArg Except.ok (stepPart_of_isName proper names))
  rcases partsOf_join directory proper with behind | ⟨front, isFront, behind⟩
  · rw [behind]
    exact behindFront leads
  · rw [behind]
    rw [isFront, follow_append] at leads
    cases early : root.follow [] front with
    | error errno =>
        rw [early] at leads
        cases leads
    | ok reached =>
        rw [early] at leads
        cases eq_of_follow_empty leads
        exact behindFront early

/-- Whether one way from a directory comes before another when the listings are followed downwards: in the
directory where they part, the first goes on to an entry that is listed before the one that the second
goes on to. -/
def ListsBefore (directory : Entry) (first second : List String) : Prop :=
  ∃ common own entries left right firstRest secondRest,
    directory.descend common = .ok (.directory own entries) ∧
      [left, right].Sublist (entries.map name) ∧ first = common ++ left :: firstRest ∧
      second = common ++ right :: secondRest

theorem ListsBefore.ne {directory : Entry} (proper : directory.isProper = true)
    {first second : List String} (before : directory.ListsBefore first second) : first ≠ second := by
  rintro rfl
  rcases before with ⟨common, own, entries, left, right, _, _, leads, listed, isFirst, isSecond⟩
  rw [isFirst, List.append_cancel_left_eq] at isSecond
  cases isSecond
  have twice := (names_nodup (descend_proper proper leads).1).sublist listed
  simp at twice

end Entry

namespace Disk

theorem find_eq_ok_iff {disk : Disk} {path : String} {entry : Entry} :
    disk.find path = .ok entry ↔
      ∃ names, disk.locate path = .ok names ∧ disk.root.descend names = .ok entry := by
  unfold find
  cases disk.locate path with
  | error errno => simp
  | ok names => simp

theorem locate_join {disk : Disk} {path own : String} {names : List String} {entries : List Entry}
    (leads : disk.locate path = .ok names)
    (isDirectory : disk.root.descend names = .ok (.directory own entries)) {name : String}
    (proper : isName name = true) : disk.locate (join path name) = .ok (names ++ [name]) := by
  unfold locate at leads ⊢
  rw [join_assoc]
  cases lookup : disk.lookup with
  | stepwise =>
      rw [lookup] at leads
      exact Entry.follow_join leads isDirectory proper
  | simplified =>
      rw [lookup] at leads
      cases leads
      exact congrArg Except.ok (namesOf_join _ proper)

theorem find_proper {disk : Disk} (proper : disk.root.isProper = true) {path : String} {entry : Entry}
    (found : disk.find path = .ok entry) : entry.isProper = true := by
  rcases find_eq_ok_iff.mp found with ⟨names, _, leads⟩
  exact (Entry.descend_proper proper leads).1

/-- The entries of a directory are found behind its path. -/
theorem find_join {disk : Disk} (proper : disk.root.isProper = true) {path own : String}
    {entries : List Entry} (isDirectory : disk.find path = .ok (.directory own entries)) {entry : Entry}
    (member : entry ∈ entries) : disk.find (join path entry.name) = .ok entry := by
  have properEntries : Entry.allProper entries = true := find_proper proper isDirectory
  rcases find_eq_ok_iff.mp isDirectory with ⟨names, located, leads⟩
  have behind := locate_join located leads (Entry.allProper_mem properEntries member).1
  refine find_eq_ok_iff.mpr ⟨names ++ [entry.name], behind, ?_⟩
  rw [Entry.descend_append, leads]
  exact (Entry.descend_cons_eq_ok_iff properEntries).mpr ⟨entry, member, rfl, rfl⟩

/-- What some names lead to from a directory is found behind its path. -/
theorem find_join_relative {disk : Disk} (proper : disk.root.isProper = true) {path : String}
    {directory target : Entry} (found : disk.find path = .ok directory) {names : List String}
    (nonempty : names ≠ []) (leads : directory.descend names = .ok target) :
    disk.find (join path (relative names)) = .ok target := by
  induction names generalizing path directory with
  | nil => exact absurd rfl nonempty
  | cons name rest ih =>
      have properDirectory := find_proper proper found
      cases directory with
      | file | «sealed» => cases leads
      | directory own entries =>
          rcases (Entry.descend_cons_eq_ok_iff properDirectory).mp leads with ⟨child, member, rfl, onwards⟩
          have isChild := find_join proper found member
          cases rest with
          | nil =>
              cases onwards
              exact isChild
          | cons next others =>
              have behind : next :: others ≠ [] := List.cons_ne_nil next others
              have all := (Entry.descend_proper properDirectory leads).2
              rw [List.forall_mem_cons] at all
              rw [relative_cons all.1 behind all.2, join_assoc]
              exact ih isChild behind onwards

end Disk

end Storage

namespace Discovery

open Storage

/-- An entry that some names lead to from a directory, and that a search of the directory is for: at any
depth a source that is no directory, or right in the directory an entry with the name of a source. -/
structure Sought (recurse : Bool) (directory : Entry) (names : List String) (target : Entry) : Prop where
  leads : directory.descend names = .ok target
  isSource : isSource target.name = true
  depth : if recurse then names ≠ [] ∧ target.isDirectory = false else names.length = 1

/-- The files that an argument stands for. -/
inductive StandsFor (disk : Disk) (recurse : Bool) (argument : String) : List String → Prop where
  | itself (notDirectory : disk.isDirectory (join disk.base argument) = false)
      (isSource : isSource argument = true) : StandsFor disk recurse argument [argument]
  | nothing (notDirectory : disk.isDirectory (join disk.base argument) = false)
      (notSource : Discovery.isSource argument = false) : StandsFor disk recurse argument []
  | directory {own : String} {entries : List Entry} {found : List (List String × Entry)}
      (isDirectory : disk.find (join disk.base argument) = .ok (.directory own entries))
      (sought : ∀ names target,
        (names, target) ∈ found ↔ Sought recurse (.directory own entries) names target)
      (ordered : found.Pairwise fun first second =>
        (Entry.directory own entries).ListsBefore first.1 second.1)
      (once : (found.map fun hit => join argument (relative hit.1)).Nodup)
      (named : ∀ hit ∈ found, disk.find (join disk.base (join argument (relative hit.1))) = .ok hit.2) :
      StandsFor disk recurse argument (found.map fun hit => join argument (relative hit.1))

/-- An entry itself, if it has the name of a source. -/
def single (entry : Entry) : List (List String × Entry) :=
  if isSource entry.name then [([entry.name], entry)] else []

mutual

/-- What a search comes to for an entry of a directory: what is found, each with the names that lead to
it. -/
def hits (recurse : Bool) : Entry → List (List String × Entry)
  | .directory name entries =>
    if recurse then (allHits recurse entries).map fun hit => (name :: hit.1, hit.2)
    else single (.directory name entries)
  | .file name text => single (.file name text)
  | .sealed name errno => single (.sealed name errno)

/-- What a search of a directory comes to. -/
def allHits (recurse : Bool) : List Entry → List (List String × Entry)
  | [] => []
  | entry :: rest => hits recurse entry ++ allHits recurse rest

end

theorem allHits_eq_flatMap (recurse : Bool) (entries : List Entry) :
    allHits recurse entries = entries.flatMap (hits recurse) := by
  induction entries with
  | nil => rfl
  | cons entry rest ih => rw [allHits, ih, List.flatMap_cons]

theorem hits_of_leaf (recurse : Bool) {entry : Entry} (leaf : entry.isDirectory = false) :
    hits recurse entry = single entry := by
  cases entry with
  | directory => cases leaf
  | file | «sealed» => rfl

theorem mem_single_iff {entry target : Entry} {names : List String} :
    (names, target) ∈ single entry ↔
      names = [entry.name] ∧ target = entry ∧ isSource entry.name = true := by
  unfold single
  split
  next isSource => simp [isSource]
  next notSource => simp [notSource]

/-! ## Which entries are found -/

/-- An entry that a search is for and that is reached through the given entry of a directory. -/
def SoughtThrough (recurse : Bool) (entry : Entry) (names : List String) (target : Entry) : Prop :=
  ∃ rest, names = entry.name :: rest ∧ entry.descend rest = .ok target ∧
    isSource target.name = true ∧ if recurse then target.isDirectory = false else rest = []

theorem sought_iff_through {recurse : Bool} {own : String} {entries : List Entry}
    (proper : Entry.allProper entries = true) {names : List String} {target : Entry} :
    Sought recurse (.directory own entries) names target ↔
      ∃ entry ∈ entries, SoughtThrough recurse entry names target := by
  constructor
  · rintro ⟨leads, isSource, depth⟩
    cases names with
    | nil => cases recurse <;> simp at depth
    | cons name rest =>
        rcases (Entry.descend_cons_eq_ok_iff proper).mp leads with ⟨entry, member, rfl, onwards⟩
        refine ⟨entry, member, rest, rfl, onwards, isSource, ?_⟩
        cases recurse with
        | true => exact depth.2
        | false => simpa using depth
  · rintro ⟨entry, member, rest, rfl, onwards, isSource, depth⟩
    refine ⟨(Entry.descend_cons_eq_ok_iff proper).mpr ⟨entry, member, rfl, onwards⟩, isSource, ?_⟩
    cases recurse with
    | true => exact ⟨List.cons_ne_nil _ _, depth⟩
    | false => simpa using depth

theorem mem_allHits_of_each {recurse : Bool} {own : String} {entries : List Entry}
    (proper : Entry.allProper entries = true) {names : List String} {target : Entry}
    (each : ∀ entry ∈ entries,
      (names, target) ∈ hits recurse entry ↔ SoughtThrough recurse entry names target) :
    (names, target) ∈ allHits recurse entries ↔ Sought recurse (.directory own entries) names target := by
  rw [sought_iff_through proper, allHits_eq_flatMap, List.mem_flatMap]
  apply exists_congr
  intro entry
  apply and_congr_right
  intro member
  exact each entry member

theorem mem_hits_iff {recurse : Bool} {entry : Entry} (proper : entry.isProper = true)
    {names : List String} {target : Entry} :
    (names, target) ∈ hits recurse entry ↔ SoughtThrough recurse entry names target := by
  induction entry using Entry.induction generalizing names with
  | leaf entry leaf =>
      rw [hits_of_leaf recurse leaf, mem_single_iff]
      unfold SoughtThrough
      simp only [Entry.descend_eq_ok_of_leaf leaf]
      constructor
      · rintro ⟨rfl, rfl, isSource⟩
        refine ⟨[], rfl, ⟨rfl, rfl⟩, isSource, ?_⟩
        cases recurse with
        | true => exact leaf
        | false => rfl
      · rintro ⟨rest, rfl, ⟨rfl, rfl⟩, isSource, _⟩
        exact ⟨rfl, rfl, isSource⟩
  | directory name entries ih =>
      rw [Entry.isProper] at proper
      cases recurse with
      | false =>
          rw [hits, if_neg Bool.false_ne_true, mem_single_iff]
          constructor
          · rintro ⟨rfl, rfl, isSource⟩
            exact ⟨[], rfl, rfl, isSource, rfl⟩
          · rintro ⟨rest, rfl, leads, isSource, isHere⟩
            cases isHere
            cases leads
            exact ⟨rfl, rfl, isSource⟩
      | true =>
          have below {names : List String} : (names, target) ∈ allHits true entries ↔
              Sought true (.directory name entries) names target :=
            mem_allHits_of_each proper fun entry member =>
              ih entry member (Entry.allProper_mem proper member).2
          rw [hits, if_pos rfl, List.mem_map]
          constructor
          · rintro ⟨⟨rest, found⟩, member, same⟩
            cases same
            rcases below.mp member with ⟨leads, isSource, depth⟩
            exact ⟨rest, rfl, leads, isSource, depth.2⟩
          · rintro ⟨rest, rfl, leads, isSource, notDirectory⟩
            refine ⟨(rest, target), below.mpr ⟨leads, isSource, ?_, notDirectory⟩, rfl⟩
            rintro rfl
            cases leads
            cases notDirectory

/-- A search finds exactly what it is for. -/
theorem mem_allHits_iff {recurse : Bool} {own : String} {entries : List Entry}
    (proper : Entry.allProper entries = true) {names : List String} {target : Entry} :
    (names, target) ∈ allHits recurse entries ↔ Sought recurse (.directory own entries) names target :=
  mem_allHits_of_each proper fun _ member => mem_hits_iff (Entry.allProper_mem proper member).2

/-! ## In which order they are found -/

theorem listsBefore_of_child {own : String} {entries : List Entry}
    (proper : Entry.allProper entries = true) {entry : Entry} (member : entry ∈ entries)
    {first second : List String} (before : entry.ListsBefore first second) :
    (Entry.directory own entries).ListsBefore (entry.name :: first) (entry.name :: second) := by
  rcases before with ⟨common, inner, listing, left, right, _, _, leads, listed, rfl, rfl⟩
  refine ⟨entry.name :: common, inner, listing, left, right, _, _, ?_, listed, rfl, rfl⟩
  exact (Entry.descend_cons_eq_ok_iff proper).mpr ⟨entry, member, rfl, leads⟩

theorem allHits_ordered_of_each (recurse : Bool) (own : String) {entries : List Entry}
    (proper : Entry.allProper entries = true)
    (each : ∀ entry ∈ entries, (hits recurse entry).Pairwise fun first second =>
      ∃ early late, first.1 = entry.name :: early ∧ second.1 = entry.name :: late ∧
        entry.ListsBefore early late) :
    (allHits recurse entries).Pairwise fun first second =>
      (Entry.directory own entries).ListsBefore first.1 second.1 := by
  rw [allHits_eq_flatMap, List.pairwise_flatMap]
  constructor
  · intro entry member
    apply (each entry member).imp
    rintro first second ⟨early, late, isFirst, isSecond, before⟩
    rw [isFirst, isSecond]
    exact listsBefore_of_child proper member before
  · -- Hits for different entries part in the directory itself.
    rw [List.pairwise_iff_forall_sublist]
    intro entry other listed first isHit second isOther
    have inEntries : entry ∈ entries := listed.subset (by simp)
    have otherIn : other ∈ entries := listed.subset (by simp)
    rcases (mem_hits_iff (Entry.allProper_mem proper inEntries).2).mp isHit with ⟨early, isFirst, _⟩
    rcases (mem_hits_iff (Entry.allProper_mem proper otherIn).2).mp isOther with ⟨late, isSecond, _⟩
    exact ⟨[], own, entries, entry.name, other.name, early, late, rfl, listed.map Entry.name, isFirst,
      isSecond⟩

theorem hits_ordered {recurse : Bool} {entry : Entry} (proper : entry.isProper = true) :
    (hits recurse entry).Pairwise fun first second =>
      ∃ early late, first.1 = entry.name :: early ∧ second.1 = entry.name :: late ∧
        entry.ListsBefore early late := by
  have alone (entry : Entry) : (single entry).Pairwise fun first second =>
      ∃ early late, first.1 = entry.name :: early ∧ second.1 = entry.name :: late ∧
        entry.ListsBefore early late := by
    unfold single
    split <;> simp
  induction entry using Entry.induction with
  | leaf entry leaf =>
      rw [hits_of_leaf recurse leaf]
      exact alone entry
  | directory name entries ih =>
      rw [Entry.isProper] at proper
      cases recurse with
      | false => exact alone (.directory name entries)
      | true =>
          have below := allHits_ordered_of_each true name proper fun entry member =>
            ih entry member (Entry.allProper_mem proper member).2
          rw [hits, if_pos rfl, List.pairwise_map]
          apply below.imp
          intro first second before
          exact ⟨first.1, second.1, rfl, rfl, before⟩

/-- A search finds things in the order of the listings. -/
theorem allHits_ordered (recurse : Bool) (own : String) {entries : List Entry}
    (proper : Entry.allProper entries = true) :
    (allHits recurse entries).Pairwise fun first second =>
      (Entry.directory own entries).ListsBefore first.1 second.1 :=
  allHits_ordered_of_each recurse own proper fun _ member =>
    hits_ordered (Entry.allProper_mem proper member).2

/-! ## Under which paths they are found -/

theorem ofEntry_of_isLeaf {recurse : Bool} {entry : Entry}
    (isLeaf : entry.isDirectory = false ∨ recurse = false) (directory : String) :
    ofEntry recurse directory entry =
      (single entry).map fun hit => join directory (relative hit.1) := by
  have same : ofEntry recurse directory entry =
      if isSource entry.name then [join directory entry.name] else [] := by
    cases entry with
    | directory name entries =>
        rcases isLeaf with notDirectory | rfl
        · cases notDirectory
        · rfl
    | file | «sealed» => rfl
  rw [same, single]
  split
  · rfl
  · rfl

/-- What a search of a directory finds is reached through names, and through at least one. -/
theorem names_of_mem_allHits {recurse : Bool} {entries : List Entry}
    (proper : Entry.allProper entries = true) {hit : List String × Entry}
    (member : hit ∈ allHits recurse entries) :
    hit.1 ≠ [] ∧ ∀ name ∈ hit.1, isName name = true := by
  have sought : Sought recurse (.directory "" entries) hit.1 hit.2 := (mem_allHits_iff proper).mp member
  have properDirectory : (Entry.directory "" entries).isProper = true := proper
  refine ⟨?_, (Entry.descend_proper properDirectory sought.leads).2⟩
  intro isEmpty
  have depth := sought.depth
  rw [isEmpty] at depth
  cases recurse <;> simp at depth

theorem ofEntries_eq_map_of_each {recurse : Bool} {directory : String} {entries : List Entry}
    (each : ∀ entry ∈ entries, ofEntry recurse directory entry =
      (hits recurse entry).map fun hit => join directory (relative hit.1)) :
    ofEntries recurse directory entries =
      (allHits recurse entries).map fun hit => join directory (relative hit.1) := by
  induction entries with
  | nil => rfl
  | cons entry rest ih =>
      rw [List.forall_mem_cons] at each
      rw [ofEntries, allHits, List.map_append, each.1, ih each.2]

/-- The paths of a search are the ways to what it finds, put behind the directory. -/
theorem ofEntry_eq_map {recurse : Bool} {entry : Entry} (isNamed : isName entry.name = true)
    (proper : entry.isProper = true) (directory : String) :
    ofEntry recurse directory entry =
      (hits recurse entry).map fun hit => join directory (relative hit.1) := by
  induction entry using Entry.induction generalizing directory with
  | leaf entry leaf =>
      rw [hits_of_leaf recurse leaf]
      exact ofEntry_of_isLeaf (Or.inl leaf) directory
  | directory name entries ih =>
      rw [Entry.isProper] at proper
      cases recurse with
      | false => exact ofEntry_of_isLeaf (Or.inr rfl) directory
      | true =>
          have inner : ofEntries true (join directory name) entries =
              (allHits true entries).map fun hit => join (join directory name) (relative hit.1) := by
            apply ofEntries_eq_map_of_each
            intro entry member
            rcases Entry.allProper_mem proper member with ⟨isNamed, isProper⟩
            exact ih entry member isNamed isProper (join directory name)
          rw [ofEntry, if_pos rfl, inner, hits, if_pos rfl, List.map_map]
          apply List.map_congr_left
          intro hit member
          rcases names_of_mem_allHits proper member with ⟨nonempty, all⟩
          rw [← join_assoc]
          exact congrArg (join directory) (relative_cons isNamed nonempty all).symm

theorem ofEntries_eq_map (recurse : Bool) (directory : String) {entries : List Entry}
    (proper : Entry.allProper entries = true) :
    ofEntries recurse directory entries =
      (allHits recurse entries).map fun hit => join directory (relative hit.1) := by
  apply ofEntries_eq_map_of_each
  intro entry member
  rcases Entry.allProper_mem proper member with ⟨isNamed, isProper⟩
  exact ofEntry_eq_map isNamed isProper directory

/-- What is found for an entry that is looked up by its path, where a directory is searched as if it were an
argument. -/
def foundByPath (disk : Disk) (recurse : Bool) (directory : String) (entry : Entry) : List String :=
  if disk.isDirectory (join (join disk.base directory) entry.name) && recurse then
    ofArgument disk recurse (join directory entry.name)
  else if isSource entry.name then [join directory entry.name] else []

theorem ofEntry_eq_foundByPath {disk : Disk} {recurse : Bool} {directory : String} {entry : Entry}
    (found : disk.find (join (join disk.base directory) entry.name) = .ok entry) :
    ofEntry recurse directory entry = foundByPath disk recurse directory entry := by
  unfold foundByPath ofArgument Disk.isDirectory
  rw [join_assoc disk.base directory, found]
  cases entry with
  | directory name inner => cases recurse <;> rfl
  | file | «sealed» => rfl

/-- A search can go by paths alone. -/
theorem inDirectory_by_paths {disk : Disk} (proper : disk.root.isProper = true) (recurse : Bool)
    {directory own : String} {entries : List Entry}
    (isDirectory : disk.find (join disk.base directory) = .ok (.directory own entries)) :
    inDirectory disk recurse directory = .ok (entries.flatMap (foundByPath disk recurse directory)) := by
  have joined {others : List Entry} (included : others ⊆ entries) :
      ofEntries recurse directory others = others.flatMap (foundByPath disk recurse directory) := by
    induction others with
    | nil => rfl
    | cons entry rest ih =>
        rw [List.cons_subset] at included
        have found := Disk.find_join proper isDirectory included.1
        rw [ofEntries, List.flatMap_cons, ofEntry_eq_foundByPath found, ih included.2]
  rw [inDirectory, Disk.list, isDirectory]
  exact congrArg Except.ok (joined (List.Subset.refl entries))

/-- Different ways have different paths. -/
theorem paths_nodup (recurse : Bool) (directory : String) {entries : List Entry}
    (proper : Entry.allProper entries = true) :
    ((allHits recurse entries).map fun hit => join directory (relative hit.1)).Nodup := by
  have properDirectory : (Entry.directory "" entries).isProper = true := proper
  rw [List.Nodup, List.pairwise_map]
  apply (allHits_ordered recurse "" proper).imp_of_mem
  intro first second isFirst isSecond before samePath
  rcases names_of_mem_allHits proper isFirst with ⟨firstNonempty, firstNames⟩
  rcases names_of_mem_allHits proper isSecond with ⟨secondNonempty, secondNames⟩
  apply before.ne properDirectory
  have sameNames := congrArg namesOf samePath
  rw [namesOf_join_relative directory firstNonempty firstNames,
    namesOf_join_relative directory secondNonempty secondNames] at sameNames
  exact List.append_cancel_left sameNames

theorem ofArgument_standsFor {disk : Disk} (proper : disk.root.isProper = true) (recurse : Bool)
    (argument : String) : StandsFor disk recurse argument (ofArgument disk recurse argument) := by
  unfold ofArgument
  split
  next own entries isDirectory =>
    have properEntries := Disk.find_proper proper isDirectory
    rw [Entry.isProper] at properEntries
    rw [ofEntries_eq_map recurse argument properEntries]
    apply StandsFor.directory isDirectory
    · intro names target
      exact mem_allHits_iff properEntries
    · exact allHits_ordered recurse own properEntries
    · exact paths_nodup recurse argument properEntries
    · intro hit member
      have sought : Sought recurse (.directory own entries) hit.1 hit.2 :=
        (mem_allHits_iff properEntries).mp member
      rw [join_assoc]
      exact Disk.find_join_relative proper isDirectory (names_of_mem_allHits properEntries member).1
        sought.leads
  next other =>
    have notDirectory : disk.isDirectory (join disk.base argument) = false := by
      unfold Disk.isDirectory
      split
      next entry found =>
        cases entry with
        | directory own entries => exact absurd found (other own entries)
        | file | «sealed» => rfl
      next => rfl
    cases source : isSource argument with
    | true => exact .itself notDirectory source
    | false => exact .nothing notDirectory source

/-- Every argument stands, in its turn, for exactly the files that it names: a directory for the sources
in it or below it, each once and under a path that leads back to it, and anything else for itself. -/
theorem ofArguments_exact {disk : Disk} (proper : disk.root.isProper = true) (recurse : Bool)
    (arguments : List String) :
    ∃ files : List (List String), List.Forall₂ (StandsFor disk recurse) arguments files ∧
      ofArguments disk recurse arguments = files.flatten := by
  refine ⟨arguments.map (ofArgument disk recurse), ?_, List.flatMap_def⟩
  rw [List.forall₂_map_right_iff]
  apply List.forall₂_same.mpr
  intro argument _
  exact ofArgument_standsFor proper recurse argument

/-- The disk of a directory with a source, another file and, below it, a directory with the name of a
source and one with a source in a directory of its own. -/
def nestedDisk : Disk where
  base := "/w"
  root := .directory "" [.directory "w"
    [.file "a.py" "a\n", .file "b" "b\n",
     .directory "s" [.directory "t.py" [.file "e" ""], .file "c.py" "c\n", .directory "u" [.file "d.py" ""]]]]

/-- Two dots go back from a directory, and not from a file or from what does not exist. -/
theorem ofArguments_exact_nestedDisk :
    nestedDisk.root.isProper = true ∧
      ofArguments nestedDisk true ["a.py", "b", "s", "a.py/..", "gone/..", "s/u/.."] =
        ["a.py", "s/c.py", "s/u/d.py", "s/u/../c.py", "s/u/../u/d.py"] ∧
      ofArguments nestedDisk false ["s"] = ["s/t.py", "s/c.py"] ∧
      ∃ files : List (List String),
        List.Forall₂ (StandsFor nestedDisk true) ["a.py", "b", "s", "a.py/..", "gone/..", "s/u/.."] files ∧
          ofArguments nestedDisk true ["a.py", "b", "s", "a.py/..", "gone/..", "s/u/.."] =
            files.flatten := by
  have proper : nestedDisk.root.isProper = true := by decide +kernel
  have deep : ofArguments nestedDisk true ["a.py", "b", "s", "a.py/..", "gone/..", "s/u/.."] =
      ["a.py", "s/c.py", "s/u/d.py", "s/u/../c.py", "s/u/../u/d.py"] := by
    decide +kernel
  have flat : ofArguments nestedDisk false ["s"] = ["s/t.py", "s/c.py"] := by decide +kernel
  exact ⟨proper, deep, flat, ofArguments_exact proper true _⟩

end Discovery

end CrossRef
