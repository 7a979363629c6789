import CrossRef.Proofs.Bookkeeping
import CrossRef.Proofs.Targets

/-!
# What the targets of an assignment note down

The plans of an assignment and of the primaries in its targets, worked out for the syntax of
assignments: a statement awaits all its targets, brackets await those between them, and a primary that
is assigned to takes note of its name.
-/

namespace CrossRef

namespace Element

theorem entry_part {kind : Nat} {parts : List Element} {child : Element} (index : Nat)
    (isPart : parts[index]? = some child) :
    (ofKind kind parts).entry ((index + 1 : Nat) : Int) = .ok child :=
  entry_of_getElem? (index + 1) isPart

theorem entry_last (kind : Nat) (front : List Element) (last : Element) :
    (ofKind kind (front ++ [last])).entry (-1) = .ok last :=
  entry_back (.int kind :: front) last []

section

variable (kind : Nat) (first second third : Element) (rest : List Element) (route : List Int)

theorem kindIs_first (number : Nat) :
    (ofKind kind (first :: rest)).kindIs (1 :: route) number = first.kindIs route number :=
  kindIs_of_entry (entry_part 0 rfl) route number

theorem kindIs_second (number : Nat) :
    (ofKind kind (first :: second :: rest)).kindIs (2 :: route) number = second.kindIs route number :=
  kindIs_of_entry (entry_part 1 rfl) route number

theorem kindIn_first (numbers : List Nat) :
    (ofKind kind (first :: rest)).kindIn (1 :: route) numbers = first.kindIn route numbers :=
  kindIn_of_entry (entry_part 0 rfl) route numbers

theorem kindIn_second (numbers : List Nat) :
    (ofKind kind (first :: second :: rest)).kindIn (2 :: route) numbers = second.kindIn route numbers :=
  kindIn_of_entry (entry_part 1 rfl) route numbers

theorem kindIn_third (numbers : List Nat) :
    (ofKind kind (first :: second :: third :: rest)).kindIn (3 :: route) numbers =
      third.kindIn route numbers :=
  kindIn_of_entry (entry_part 2 rfl) route numbers

end

@[simp]
theorem lengthIs_ofKind (kind : Nat) (parts : List Element) (question : Nat → Bool) :
    (ofKind kind parts).lengthIs [] question = .ok (question (parts.length + 1)) := by
  simp [lengthIs, follow, ofKind, length]

@[simp]
theorem isNumber_int (kind number : Nat) :
    (Element.int kind).isNumber number = decide (kind = number) := by
  rw [Element.isNumber, decide_eq_decide]
  omega

@[simp]
theorem kindIs_ofKind (kind : Nat) (parts : List Element) (number : Nat) :
    (ofKind kind parts).kindIs [] number = .ok (decide (kind = number)) := by
  simp only [kindIs_nil, ofKind, kind_node, isNumber_int]

@[simp]
theorem kindIn_nil_eq_true {element : Element} {numbers : List Nat} :
    element.kindIn [] numbers = .ok true ↔ element.isOfKindIn numbers = true := by
  rw [kindIn_nil]
  unfold isOfKindIn isOfKind Element.isNumberIn
  cases element.kind with
  | error fault => simp
  | ok kind => simp

theorem locate_part {kind : Nat} {parts : List Element} {child : Element} (index : Nat)
    (isPart : parts[index]? = some child) (path : Path) (route : List Int) :
    locate path (ofKind kind parts) (((index + 1 : Nat) : Int) :: route) =
      locate (path ++ [index + 1]) child route := by
  have inside : index + 1 < (ofKind kind parts).elements.length := by
    simpa [ofKind, elements] using (List.getElem?_eq_some_iff.mp isPart).1
  rw [locate, entry_part index isPart, Tree.place_of_lt inside]
  rfl

theorem locate_back (kind : Nat) (front : List Element) (child : Element) (behind : List Element)
    (path : Path) (route : List Int) :
    locate path (ofKind kind (front ++ child :: behind)) (-((behind.length + 1 : Nat) : Int) :: route) =
      locate (path ++ [front.length + 1]) child route := by
  have isChild := entry_back (.int kind :: front) child behind
  have inside : behind.length + 1 ≤ (ofKind kind (front ++ child :: behind)).elements.length := by
    simp only [ofKind, elements, List.length_cons, List.length_append]
    omega
  have place : (ofKind kind (front ++ child :: behind)).elements.length - (behind.length + 1) =
      front.length + 1 := by
    simp only [ofKind, elements, List.length_cons, List.length_append]
    omega
  have isPlace := Tree.place_from_end (Nat.succ_pos behind.length) inside
  rw [place] at isPlace
  rw [List.cons_append] at isChild
  rw [locate, isPlace, ofKind, isChild]
  rfl

end Element

namespace Assignment

@[simp]
theorem Token.isOfKind_toElement (kind : Nat) (token : Token) (number : Nat) :
    (token.toElement kind).isOfKind number = decide (kind = number) :=
  Element.isOfKind_ofKind kind _ number

@[simp]
theorem Token.kindIs_toElement (kind : Nat) (token : Token) (number : Nat) :
    (token.toElement kind).kindIs [] number = .ok (decide (kind = number)) :=
  Element.kindIs_ofKind kind _ number

namespace Trailer

variable {element : Element} {position : Int} {trailer : Trailer}

/-- Only a name behind a dot is an attribute. -/
theorem isAttribute_iff (isTrailer : element.entry position = .ok trailer.toElement) :
    Plan.isAttribute .version3 element position = .ok true ↔ ∃ dot name, trailer = .dotted dot name := by
  simp only [Plan.isAttribute, Verdict.all_eq_true, List.forall_mem_cons,
    Element.lengthIs_of_entry isTrailer, Element.kindIs_of_entry isTrailer]
  cases trailer with
  | dotted dot name =>
      simp [toElement, parts, Element.kindIs_first, Element.kindIs_second]
  | subscript opening closing index others => simp [toElement, parts]
  | call opening closing arguments =>
      simp [toElement, parts, Element.kindIs_first, Kind.leftParenthesis, Kind.dot]

/-- Only something between square brackets is a subscript. -/
theorem isSubscript_iff (isTrailer : element.entry position = .ok trailer.toElement) :
    Verdict.all
        [element.lengthIs [position] (4 ≤ ·),
         element.kindIs [position] Grammar.version3.trailer,
         element.kindIs [position, 1] Kind.leftBracket,
         element.kindIs [position, -1] Kind.rightBracket] = .ok true ↔
      ∃ opening closing first others, trailer = .subscript opening closing first others := by
  simp only [Verdict.all_eq_true, List.forall_mem_cons, Element.lengthIs_of_entry isTrailer,
    Element.kindIs_of_entry isTrailer]
  cases trailer with
  | dotted dot name => simp [toElement, parts]
  | subscript opening closing index others =>
      have closes := Element.kindIs_of_entry
        (Element.entry_last Grammar.version3.trailer
          (opening.toElement Kind.leftBracket :: index.tree :: others.map Expression.tree)
          (closing.toElement Kind.rightBracket)) [] Kind.rightBracket
      simp only [List.cons_append] at closes
      simp [toElement, parts, closes, Element.kindIs_first]
  | call opening closing arguments =>
      simp [toElement, parts, Element.kindIs_first, Kind.leftParenthesis, Kind.leftBracket]

end Trailer

namespace Atom

variable (atom : Atom)

/-- Only a name is the name that an atom consists of. -/
theorem isName_iff :
    Verdict.all [atom.toElement.lengthIs [] (· = 2), atom.toElement.kindIs [1] Kind.name] = .ok true ↔
      ∃ token, atom = .name token := by
  simp only [Verdict.all_eq_true, List.forall_mem_cons, toElement, Element.lengthIs_ofKind]
  cases atom with
  | name token => simp [parts, Element.kindIs_first]
  | other parts unnamed =>
      constructor
      · rintro ⟨isShort, isName, _⟩
        have count : parts.length = 1 := by simpa [Atom.parts] using isShort
        rcases List.length_eq_one_iff.mp count with ⟨part, rfl⟩
        rw [Atom.parts, List.map_cons, Element.kindIs_first, Element.kindIs_nil_eq_true,
          unnamed part rfl] at isName
        cases isName
      · rintro ⟨token, isName⟩
        cases isName

/-- What is in brackets is a list if its parts are those of a list. -/
theorem isBracketed_of_list
    (isList : Verdict.all
      [atom.toElement.lengthIs [] (· = 4),
       atom.toElement.kindIn [1] [Kind.leftParenthesis, Kind.leftBracket],
       atom.toElement.kindIn [2] Grammar.version3.bracketed,
       atom.toElement.kindIn [3] [Kind.rightParenthesis, Kind.rightBracket]] = .ok true) :
    isBracketed atom.parts = true := by
  simp only [Verdict.all_eq_true, List.forall_mem_cons, toElement, Element.lengthIs_ofKind] at isList
  have count : atom.parts.length = 3 := by simpa using isList.1
  rcases List.length_eq_three.mp count with ⟨opening, members, closing, isParts⟩
  simp only [isParts, Element.kindIn_first, Element.kindIn_second, Element.kindIn_third,
    Element.kindIn_nil_eq_true] at isList
  simp [isParts, isBracketed, isList]

end Atom

namespace Primary

variable (primary : Primary)

theorem entry_atom : primary.toElement.entry 1 = .ok primary.atom.toElement :=
  Element.entry_part 0 rfl

theorem length_elements : primary.toElement.elements.length = primary.trailers.length + 2 := by
  simp [toElement, Element.ofKind]

theorem isSubscriptedName_iff :
    Plan.isSubscriptedName .version3 primary.toElement = .ok true ↔
      (∃ token, primary.atom = .name token) ∧
        ∃ opening closing first others, primary.trailers = [.subscript opening closing first others] := by
  have isAtom : primary.toElement.kindIs [1] Grammar.version3.atom = .ok true := by
    rw [Element.kindIs_of_entry primary.entry_atom, Atom.toElement, Element.kindIs_ofKind]
    rfl
  have isName := primary.atom.isName_iff
  simp only [Verdict.all_eq_true, List.forall_mem_cons] at isName
  simp only [Plan.isSubscriptedName, Verdict.all_eq_true, List.forall_mem_cons, isAtom,
    Element.lengthIs_of_entry primary.entry_atom, length_elements]
  constructor
  · rintro ⟨isShort, _, oneLong, named, subscripted⟩
    have count : primary.trailers.length = 1 := by simpa using isShort
    rcases List.length_eq_one_iff.mp count with ⟨trailer, isTrailers⟩
    have isTrailer : primary.toElement.entry 2 = .ok trailer.toElement := by
      rw [toElement, isTrailers]
      exact Element.entry_part 1 rfl
    rw [Element.kindIs_of_entry primary.entry_atom] at named
    refine ⟨isName.mp ⟨oneLong, named, by simp⟩, ?_⟩
    have isSubscript := Trailer.isSubscript_iff isTrailer
    simp only [Verdict.all_eq_true, List.forall_mem_cons] at isSubscript
    rcases isSubscript.mp subscripted with ⟨opening, closing, first, others, rfl⟩
    exact ⟨opening, closing, first, others, isTrailers⟩
  · rintro ⟨named, opening, closing, first, others, isTrailers⟩
    have isTrailer : primary.toElement.entry 2 =
        .ok (Trailer.subscript opening closing first others).toElement := by
      rw [toElement, isTrailers]
      exact Element.entry_part 1 rfl
    have isSubscript := (Trailer.isSubscript_iff isTrailer).mpr ⟨opening, closing, first, others, rfl⟩
    simp only [Verdict.all_eq_true, List.forall_mem_cons] at isSubscript
    have isNamed := isName.mpr named
    rw [Element.kindIs_of_entry primary.entry_atom]
    exact ⟨by simp [isTrailers], trivial, isNamed.1, isNamed.2.1, isSubscript⟩

/-- Where the trailer stands that has the given ones behind it. -/
theorem entry_trailer {front behind : List Trailer} {trailer : Trailer} {position : Int}
    (isTrailers : primary.trailers = front ++ trailer :: behind)
    (isPosition : position = -((behind.length + 1 : Nat) : Int)) :
    primary.toElement.entry position = .ok trailer.toElement := by
  have found := Element.entry_back
    (.int Grammar.version3.power :: primary.atom.toElement :: front.map Trailer.toElement)
    trailer.toElement (behind.map Trailer.toElement)
  rw [List.length_map, ← isPosition] at found
  simpa [toElement, Element.ofKind, isTrailers] using found

theorem endsInAttribute_iff :
    Verdict.all
        [.ok (decide (3 ≤ primary.trailers.length + 2)),
         Plan.isAttribute .version3 primary.toElement (-1)] = .ok true ↔
      ∃ front dot name, primary.trailers = front ++ [.dotted dot name] := by
  simp only [Verdict.all_eq_true, List.forall_mem_cons]
  constructor
  · rintro ⟨isLong, isDotted, _⟩
    have nonempty : primary.trailers ≠ [] := by
      intro alone
      simp [alone] at isLong
    rcases List.eq_nil_or_concat' primary.trailers with alone | ⟨front, last, isTrailers⟩
    · exact absurd alone nonempty
    · rcases (Trailer.isAttribute_iff (primary.entry_trailer isTrailers rfl)).mp isDotted with
        ⟨dot, name, rfl⟩
      exact ⟨front, dot, name, isTrailers⟩
  · rintro ⟨front, dot, name, isTrailers⟩
    refine ⟨by simp [isTrailers], ?_, by simp⟩
    exact (Trailer.isAttribute_iff (primary.entry_trailer isTrailers rfl)).mpr ⟨dot, name, rfl⟩

theorem endsInElement_iff :
    Verdict.all
        [.ok (decide (4 ≤ primary.trailers.length + 2)),
         Plan.isAttribute .version3 primary.toElement (-2),
         Plan.endsInSubscript .version3 primary.toElement] = .ok true ↔
      ∃ front dot name opening closing first others,
        primary.trailers = front ++ [.dotted dot name, .subscript opening closing first others] := by
  simp only [Verdict.all_eq_true, List.forall_mem_cons]
  constructor
  · rintro ⟨isLong, isDotted, isSubscript, _⟩
    rcases List.eq_nil_or_concat' primary.trailers with alone | ⟨early, last, isTrailers⟩
    · simp [alone] at isLong
    · rcases List.eq_nil_or_concat' early with rfl | ⟨front, previous, rfl⟩
      · simp [isTrailers] at isLong
      · rw [List.append_assoc] at isTrailers
        rcases (Trailer.isAttribute_iff (primary.entry_trailer isTrailers rfl)).mp isDotted with
          ⟨dot, name, rfl⟩
        rw [List.singleton_append, List.append_cons] at isTrailers
        rcases (Trailer.isSubscript_iff (primary.entry_trailer isTrailers rfl)).mp isSubscript with
          ⟨opening, closing, first, others, rfl⟩
        rw [List.append_assoc] at isTrailers
        exact ⟨front, dot, name, opening, closing, first, others, isTrailers⟩
  · rintro ⟨front, dot, name, opening, closing, first, others, isTrailers⟩
    refine ⟨by simp [isTrailers], ?_, ?_, by simp⟩
    · exact (Trailer.isAttribute_iff (primary.entry_trailer isTrailers rfl)).mpr ⟨dot, name, rfl⟩
    · rw [List.append_cons] at isTrailers
      exact (Trailer.isSubscript_iff (primary.entry_trailer isTrailers rfl)).mpr
        ⟨opening, closing, first, others, rfl⟩

theorem leaf?_eq_none (trailed : primary.trailers ≠ [])
    (notNamed : ¬ ((∃ token, primary.atom = .name token) ∧
      ∃ opening closing first others, primary.trailers = [.subscript opening closing first others]))
    (notDotted : ¬ ∃ front dot name, primary.trailers = front ++ [.dotted dot name])
    (notElement : ¬ ∃ front dot name opening closing first others,
      primary.trailers = front ++ [.dotted dot name, .subscript opening closing first others]) :
    primary.leaf? = none := by
  unfold leaf?
  split
  next alone => exact absurd (List.reverse_eq_nil_iff.mp alone) trailed
  next dot name earlier isReverse =>
    have isTrailers := congrArg List.reverse isReverse
    rw [List.reverse_reverse, List.reverse_cons] at isTrailers
    exact absurd ⟨_, dot, name, isTrailers⟩ notDotted
  next opening closing first others isReverse =>
    have isTrailers := congrArg List.reverse isReverse
    rw [List.reverse_reverse] at isTrailers
    cases isSort : primary.atom with
    | name token =>
        exact absurd ⟨⟨token, isSort⟩, opening, closing, first, others, isTrailers⟩ notNamed
    | other parts unnamed => rfl
  next opening closing first others dot name earlier isReverse =>
    have isTrailers := congrArg List.reverse isReverse
    rw [List.reverse_reverse, List.reverse_cons, List.reverse_cons, List.append_assoc] at isTrailers
    exact absurd ⟨_, dot, name, opening, closing, first, others, isTrailers⟩ notElement
  next => rfl

/-- The name that a primary assigns to is one of the nodes below it. -/
theorem mem_of_leaf? {place : Path} {name : Token} (isLeaf : primary.leaf? = some (place, name))
    (path : Path) :
    (path ++ place, name.toElement Kind.name) ∈
      Element.preorderFrom path 1 (primary.atom.toElement :: primary.trailers.map Trailer.toElement) := by
  have ofAtom (isLeaf : primary.atom.leaf? = some (place, name)) :
      (path ++ place, name.toElement Kind.name) ∈
        Element.preorderFrom path 1
          (primary.atom.toElement :: primary.trailers.map Trailer.toElement) := by
    cases isSort : primary.atom with
    | name token =>
        rw [isSort] at isLeaf
        cases isLeaf
        exact Element.mem_preorderFrom_ofKind 0 0 rfl rfl path
    | other parts unnamed =>
        rw [isSort] at isLeaf
        cases isLeaf
  have ofTrailer {front behind : List Trailer} {dot : Token}
      (isTrailers : primary.trailers = front ++ .dotted dot name :: behind) :
      (path ++ [front.length + 2, 2], name.toElement Kind.name) ∈
        Element.preorderFrom path 1
          (primary.atom.toElement :: primary.trailers.map Trailer.toElement) := by
    have isPart : (primary.atom.toElement :: primary.trailers.map Trailer.toElement)[front.length + 1]? =
        some (Trailer.dotted dot name).toElement := by
      simp [isTrailers]
    exact Element.mem_preorderFrom_ofKind (front.length + 1) 1 isPart rfl path
  unfold leaf? at isLeaf
  split at isLeaf
  next => exact ofAtom isLeaf
  next dot named earlier isReverse =>
    cases isLeaf
    have isTrailers := congrArg List.reverse isReverse
    rw [List.reverse_reverse, List.reverse_cons] at isTrailers
    rw [← List.length_reverse]
    exact ofTrailer isTrailers
  next => exact ofAtom isLeaf
  next dot named earlier isReverse =>
    cases isLeaf
    have isTrailers := congrArg List.reverse isReverse
    rw [List.reverse_reverse, List.reverse_cons, List.reverse_cons, List.append_assoc] at isTrailers
    rw [← List.length_reverse]
    exact ofTrailer isTrailers
  next => cases isLeaf

end Primary

end Assignment

namespace State

open Assignment

variable {grammar : Grammar} {before after : State} {path : Path}

section

variable {verdict : Verdict} {yes no : Plan}

theorem takeAll_branch_yes (holds : verdict = .ok true)
    (taken : before.takeAll grammar (Plan.branch verdict yes no) = ⟨after, none⟩) :
    before.takeAll grammar yes = ⟨after, none⟩ := by
  rw [holds] at taken
  exact taken

theorem takeAll_branch_no (fails : verdict ≠ .ok true)
    (taken : before.takeAll grammar (Plan.branch verdict yes no) = ⟨after, none⟩) :
    before.takeAll grammar no = ⟨after, none⟩ := by
  rcases verdict with fault | _ | _
  · exact absurd taken (takeAll_fail _ _ _ _)
  · exact taken
  · exact absurd rfl fails

end

theorem takeAll_markAt {element terminal : Element} {route : List Int} {place : Path} {mark : Mark}
    (located : Element.locate path element route = .ok (place, terminal))
    (taken : before.takeAll grammar (Plan.markAt path element route mark) = ⟨after, none⟩) :
    before.take grammar (.mark place terminal mark) = ⟨after, none⟩ := by
  rw [Plan.markAt, located] at taken
  rw [takeAll] at taken
  split at taken
  next next noted =>
    cases taken
    exact noted
  next => cases taken

/-- Takes note of the name that a primary assigns to, if there is one. -/
def NotesLeaf (grammar : Grammar) (before : State) (path : Path) (leaf? : Option (Path × Token))
    (after : State) : Prop :=
  match leaf? with
  | some (place, name) =>
    before.take grammar (.mark (path ++ place) (name.toElement Kind.name) .assignment) = ⟨after, none⟩
  | none => after = before

theorem notesLeaf_name {primary : Primary} {token : Token} (isName : primary.atom = .name token)
    (taken : before.takeAll grammar (Plan.markAt path primary.toElement [1, 1] .assignment) =
      ⟨after, none⟩) : before.NotesLeaf grammar path primary.atom.leaf? after := by
  have atAtom : Element.locate path primary.toElement [1, 1] =
      Element.locate (path ++ [1]) primary.atom.toElement [1] :=
    Element.locate_part 0 rfl path [1]
  have atName : Element.locate (path ++ [1]) (Atom.name token).toElement [1] =
      .ok (path ++ [1] ++ [1], token.toElement Kind.name) :=
    Element.locate_part 0 rfl (path ++ [1]) []
  rw [isName] at atAtom ⊢
  rw [List.append_assoc] at atName
  exact takeAll_markAt (atAtom.trans atName) taken

/-- A primary without trailers. -/
theorem takeAll_bareTarget {primary : Primary} (alone : primary.trailers = [])
    (taken : before.takeAll grammar (Plan.bareTarget .version3 path primary.toElement) = ⟨after, none⟩) :
    before.NotesLeaf grammar path primary.atom.leaf? after := by
  have isAtom : primary.toElement.entry 1 = .ok primary.atom.toElement := Element.entry_part 0 rfl
  have notList := mt primary.atom.isBracketed_of_list (by simp [primary.single alone])
  simp only [Plan.bareTarget, Element.kindIs_of_entry isAtom, Element.kindIn_of_entry isAtom,
    Element.lengthIs_of_entry isAtom] at taken
  cases isSort : primary.atom with
  | name token =>
      rw [← isSort]
      exact notesLeaf_name isSort (takeAll_branch_yes (primary.atom.isName_iff.mpr ⟨token, isSort⟩) taken)
  | other parts unnamed =>
      have notName := mt primary.atom.isName_iff.mp (by simp [isSort])
      have stays := takeAll_branch_no notList (takeAll_branch_no notName taken)
      cases stays
      rfl

/-- The attribute that a primary ends in, or that it ends in up to what follows. -/
theorem notesLeaf_dotted {primary : Primary} {front behind : List Trailer} {dot name : Token}
    {position : Int} (isTrailers : primary.trailers = front ++ .dotted dot name :: behind)
    (isPosition : position = -((behind.length + 1 : Nat) : Int))
    (taken : before.takeAll grammar (Plan.markAt path primary.toElement [position, 2] .assignment) =
      ⟨after, none⟩) : before.NotesLeaf grammar path (some ([front.length + 2, 2], name)) after := by
  have parts : primary.toElement = .ofKind Grammar.version3.power
      ((primary.atom.toElement :: front.map Trailer.toElement) ++
        (Trailer.dotted dot name).toElement :: behind.map Trailer.toElement) := by
    rw [Primary.toElement, isTrailers]
    simp
  have atTrailer := Element.locate_back Grammar.version3.power
    (primary.atom.toElement :: front.map Trailer.toElement) (Trailer.dotted dot name).toElement
    (behind.map Trailer.toElement) path [2]
  rw [← parts] at atTrailer
  simp only [List.length_map, List.length_cons, ← isPosition] at atTrailer
  have atName : Element.locate (path ++ [front.length + 1 + 1]) (Trailer.dotted dot name).toElement [2] =
      .ok (path ++ [front.length + 1 + 1] ++ [2], name.toElement Kind.name) :=
    Element.locate_part 1 rfl _ []
  rw [List.append_assoc] at atName
  exact takeAll_markAt (atTrailer.trans atName) taken

/-- A primary that is assigned to takes note of its name and of nothing else. -/
theorem takeAll_target {primary : Primary}
    (taken : before.takeAll grammar (Plan.target .version3 path primary.toElement) = ⟨after, none⟩) :
    before.NotesLeaf grammar path primary.leaf? after := by
  rw [Plan.target, primary.length_elements] at taken
  by_cases alone : primary.trailers = []
  · have isAlone : primary.leaf? = primary.atom.leaf? := by simp [Primary.leaf?, alone]
    rw [isAlone]
    apply takeAll_bareTarget alone (takeAll_branch_yes _ taken)
    rw [Element.kindIs_of_entry primary.entry_atom]
    simp [alone, Atom.toElement]
  have trailed := takeAll_branch_no (by simp [alone]) taken
  by_cases named : Plan.isSubscriptedName .version3 primary.toElement = .ok true
  · rcases primary.isSubscriptedName_iff.mp named with
      ⟨⟨token, isName⟩, opening, closing, first, others, isTrailers⟩
    have isSubscripted : primary.leaf? = primary.atom.leaf? := by simp [Primary.leaf?, isTrailers]
    rw [isSubscripted]
    exact notesLeaf_name isName (takeAll_branch_yes named trailed)
  have unnamed := takeAll_branch_no named trailed
  by_cases dotted : Verdict.all
      [.ok (decide (3 ≤ primary.trailers.length + 2)),
       Plan.isAttribute .version3 primary.toElement (-1)] = .ok true
  · rcases primary.endsInAttribute_iff.mp dotted with ⟨front, dot, name, isTrailers⟩
    have isDotted : primary.leaf? = some ([front.length + 2, 2], name) := by
      simp [Primary.leaf?, isTrailers]
    rw [isDotted]
    exact notesLeaf_dotted isTrailers rfl (takeAll_branch_yes dotted unnamed)
  have undotted := takeAll_branch_no dotted unnamed
  by_cases subscripted : Verdict.all
      [.ok (decide (4 ≤ primary.trailers.length + 2)),
       Plan.isAttribute .version3 primary.toElement (-2),
       Plan.endsInSubscript .version3 primary.toElement] = .ok true
  · rcases primary.endsInElement_iff.mp subscripted with
      ⟨front, dot, name, opening, closing, first, others, isTrailers⟩
    have isElement : primary.leaf? = some ([front.length + 2, 2], name) := by
      simp [Primary.leaf?, isTrailers]
    rw [isElement]
    exact notesLeaf_dotted isTrailers rfl (takeAll_branch_yes subscripted undotted)
  · have noLeaf : primary.leaf? = none :=
      primary.leaf?_eq_none alone (mt primary.isSubscriptedName_iff.mpr named)
        (mt primary.endsInAttribute_iff.mpr dotted) (mt primary.endsInElement_iff.mpr subscripted)
    have stays := takeAll_branch_no subscripted undotted
    rw [noLeaf]
    cases stays
    rfl

end State

namespace Assignment

/-! ## What an assignment awaits -/

variable {stars : Bool}

/-- Elements with their positions, as a plan looks at them. -/
def positioned (start : Nat) (elements : List Element) : List (Nat × Element) :=
  (elements.zipIdx start).map fun (child, position) => (position, child)

@[simp]
theorem positioned_cons (start : Nat) (element : Element) (rest : List Element) :
    positioned start (element :: rest) = (start, element) :: positioned (start + 1) rest := by
  simp [positioned, List.zipIdx_cons]

@[simp]
theorem numbered_ofKind (kind : Nat) (parts : List Element) :
    (Element.ofKind kind parts).numbered 1 = positioned 1 parts := by
  simp [Element.numbered, Element.ofKind, positioned, List.zipIdx_cons]

theorem awaitMembers_ofKind {kinds : List Nat} {kind : Nat} (awaited : kind ∈ kinds)
    (noComma : kind ≠ Kind.comma) (path : Path) (position : Nat) (parts : List Element)
    (rest : List (Nat × Element)) :
    Plan.awaitMembers kinds path ((position, .ofKind kind parts) :: rest) =
      .await (path ++ [position]) :: Plan.awaitMembers kinds path rest := by
  have isKind : (Element.int kind).isNumberIn kinds = true :=
    List.any_eq_true.mpr ⟨kind, awaited, by simp⟩
  rw [Plan.awaitMembers, Element.ofKind, Element.kind_node]
  simp only [Element.isNumber_int, noComma, decide_false, Bool.false_eq_true, if_false, isKind, if_true]

theorem awaitMembers_comma (kinds : List Nat) (path : Path) (position : Nat) (comma : Token)
    (rest : List (Nat × Element)) :
    Plan.awaitMembers kinds path ((position, comma.toElement Kind.comma) :: rest) =
      Plan.awaitMembers kinds path rest := by
  rw [Plan.awaitMembers, Token.toElement, Element.ofKind, Element.kind_node]
  rfl

/-- The kinds of the members that are awaited. -/
def awaitedKinds (taken : Bool) : List Nat :=
  if taken then Grammar.version3.targets else [Grammar.version3.test]

theorem Member.kind_mem {member : Member stars} {taken : Bool} :
    member.kind ∈ awaitedKinds taken ↔ (member.isStarred && !taken) = false := by
  cases member <;> cases taken <;>
    simp [Member.kind, Member.isStarred, awaitedKinds, Grammar.version3, starKind]

theorem Member.kind_ne_comma (member : Member stars) : member.kind ≠ Kind.comma := by
  cases member <;> simp [Member.kind, Grammar.version3, starKind, Kind.comma]

theorem awaitMembers_awaited {taken : Bool} {member : Member stars}
    (isAwaited : (member.isStarred && !taken) = false) (path : Path) (position : Nat)
    (rest : List (Nat × Element)) :
    Plan.awaitMembers (awaitedKinds taken) path ((position, member.toElement) :: rest) =
      .await (path ++ [position]) :: Plan.awaitMembers (awaitedKinds taken) path rest := by
  rcases member.exists_parts with ⟨parts, isKind⟩
  rw [isKind, awaitMembers_ofKind (Member.kind_mem.mpr isAwaited) member.kind_ne_comma]

/-- A member that is not awaited ends the list of those that are. -/
theorem awaitMembers_skipped {taken : Bool} {member : Member stars}
    (isSkipped : (member.isStarred && !taken) = true) (path : Path) (position : Nat)
    (rest : List (Nat × Element)) :
    Plan.awaitMembers (awaitedKinds taken) path ((position, member.toElement) :: rest) = [] := by
  have notKind : (Element.int member.kind).isNumberIn (awaitedKinds taken) = false := by
    apply Bool.eq_false_iff.mpr
    intro isKind
    rcases List.any_eq_true.mp isKind with ⟨number, isAwaited, isNumber⟩
    rw [Element.isNumber_int, decide_eq_true_eq] at isNumber
    rw [← isNumber, Member.kind_mem, isSkipped] at isAwaited
    cases isAwaited
  rcases member.exists_parts with ⟨parts, isKind⟩
  rw [isKind, Plan.awaitMembers, Element.ofKind, Element.kind_node]
  simp only [Element.isNumber_int, member.kind_ne_comma, decide_false, Bool.false_eq_true, if_false,
    notKind]

/-- A list awaits its members, up to the first star if stars are not taken. -/
theorem Members.awaits (taken : Bool) (path : Path) : ∀ (members : Members stars) (position : Nat),
    Plan.Notes [] (Plan.awaitMembers (awaitedKinds taken) path (positioned position members.elements))
      [] (members.places taken path position)
  | .last member, position => by
      rw [Members.elements, positioned_cons, Members.places]
      split
      next isSkipped =>
        rw [awaitMembers_skipped isSkipped]
        exact .nil
      next isAwaited =>
        rw [awaitMembers_awaited (by simpa using isAwaited)]
        exact .await _ .nil
  | .trailing member comma, position => by
      rw [Members.elements, positioned_cons, Members.places]
      split
      next isSkipped =>
        rw [awaitMembers_skipped isSkipped]
        exact .nil
      next isAwaited =>
        rw [awaitMembers_awaited (by simpa using isAwaited), positioned_cons, awaitMembers_comma]
        exact .await _ .nil
  | .cons member comma rest, position => by
      rw [Members.elements, positioned_cons, Members.places]
      split
      next isSkipped =>
        rw [awaitMembers_skipped isSkipped]
        exact .nil
      next isAwaited =>
        rw [awaitMembers_awaited (by simpa using isAwaited), positioned_cons, awaitMembers_comma]
        exact .await _ (rest.awaits taken path (position + 2))

/-- A list on the left awaits all its members. -/
theorem Members.awaits_list (members : Members stars) (path : Path) :
    Plan.Notes [] (Plan.targetList .version3 path members.toElement) []
      (members.places true path 1) := by
  rw [Plan.targetList, Members.toElement, Element.kindIs_ofKind, numbered_ofKind]
  exact .demand (members.awaits true path 1)

theorem targetChain_list (path : Path) (position : Nat) (members : Members stars)
    (rest : List (Nat × Element)) :
    Plan.targetChain .version3 path ((position, members.toElement) :: rest) =
      Plan.targetList .version3 (path ++ [position]) members.toElement ++
        Plan.targetChain .version3 path rest := by
  have hasKind : members.toElement.kind = .ok (.int Grammar.version3.targetList) :=
    Element.kind_node _ _
  rw [Plan.targetChain, hasKind]
  rfl

theorem targetChain_equal (path : Path) (position : Nat) (equal : Token)
    (rest : List (Nat × Element)) :
    Plan.targetChain .version3 path ((position, equal.toElement Kind.equal) :: rest) =
      Plan.targetChain .version3 path rest := by
  rw [Plan.targetChain, Token.toElement, Element.ofKind, Element.kind_node]
  rfl

theorem elements_ne_nil (assignment : Assignment stars) : assignment.elements ≠ [] := by
  cases assignment <;> simp [elements]

theorem positioned_ne_nil (start : Nat) {elements : List Element} (nonempty : elements ≠ []) :
    positioned start elements ≠ [] := by
  simpa [positioned] using nonempty

/-- All lists but the value await their targets. -/
theorem awaits_chain (path : Path) (assignment : Assignment stars) (position : Nat) :
    Plan.Notes [] (Plan.targetChain .version3 path (positioned position assignment.elements).dropLast) []
      (assignment.places path position) := by
  induction assignment generalizing position with
  | last targets equal value =>
      have notes := targets.awaits_list (path ++ [position])
      simp only [elements, positioned_cons, List.dropLast_cons_cons, targetChain_list, targetChain_equal]
      simpa [positioned, Plan.targetChain, places] using notes
  | cons targets equal rest ih =>
      have behind := positioned_ne_nil (position + 1 + 1) rest.elements_ne_nil
      rw [elements, positioned_cons, positioned_cons, List.dropLast_cons_of_ne_nil (by simp),
        List.dropLast_cons_of_ne_nil behind, targetChain_list, targetChain_equal]
      exact (targets.awaits_list (path ++ [position])).append (ih (position + 2))

/-- A list of targets in brackets awaits them when it is assigned to. -/
theorem takeAll_bracketed {grammar : Grammar} {before after : State} {path : Path}
    {brackets : Brackets} {opening closing : Token} {members : List Element}
    (taken : before.takeAll grammar (Plan.target .version3 path
      (.ofKind Grammar.version3.power
        [.ofKind Grammar.version3.atom
          [opening.toElement brackets.opening, .ofKind Kind.members members,
           closing.toElement brackets.closing]])) = ⟨after, none⟩) :
    before.takeAll grammar
      (Plan.awaitMembers [Grammar.version3.test] (path ++ [1, 2]) (positioned 1 members)) =
        ⟨after, none⟩ := by
  let atom := Element.ofKind Grammar.version3.atom
    [opening.toElement brackets.opening, .ofKind Kind.members members,
     closing.toElement brackets.closing]
  let primary := Element.ofKind Grammar.version3.power [atom]
  have isAtom : primary.entry 1 = .ok atom := Element.entry_part 0 rfl
  have isList : atom.entry 2 = .ok (.ofKind Kind.members members) := Element.entry_part 1 rfl
  have alone : Verdict.all [.ok (decide (primary.elements.length = 2)),
      primary.kindIs [1] Grammar.version3.atom] = .ok true := by
    rw [Element.kindIs_of_entry isAtom, Element.kindIs_ofKind]
    rfl
  have notName : Verdict.all [primary.lengthIs [1] (· = 2), primary.kindIs [1, 1] Kind.name] ≠
      .ok true := by
    rw [Element.lengthIs_of_entry isAtom, Element.lengthIs_ofKind]
    simp
  have bracketed : Verdict.all
      [primary.lengthIs [1] (· = 4),
       primary.kindIn [1, 1] [Kind.leftParenthesis, Kind.leftBracket],
       primary.kindIn [1, 2] Grammar.version3.bracketed,
       primary.kindIn [1, 3] [Kind.rightParenthesis, Kind.rightBracket]] = .ok true := by
    simp only [Verdict.all_eq_true, List.forall_mem_cons, Element.lengthIs_of_entry isAtom,
      Element.kindIn_of_entry isAtom, Element.lengthIs_ofKind, atom, Element.kindIn_first,
      Element.kindIn_second, Element.kindIn_third, Element.kindIn_nil_eq_true, Element.isOfKindIn,
      Token.isOfKind_toElement, Element.isOfKind_ofKind]
    cases brackets <;> simp [Brackets.opening, Brackets.closing, Grammar.version3, Kind.members]
  have followed : primary.follow [1, 2] = .ok (.ofKind Kind.members members) := by
    simp only [Element.follow, isAtom, isList]
  rw [Plan.target] at taken
  have bare := State.takeAll_branch_yes alone taken
  rw [Plan.bareTarget] at bare
  have awaiting := State.takeAll_branch_yes bracketed (State.takeAll_branch_no notName bare)
  rw [followed] at awaiting
  simp only [numbered_ofKind] at awaiting
  exact awaiting

/-- What is left of the plan of an assignment when all questions about it are answered. -/
theorem expressionStatement_ofKind (path : Path) (targets : List Element) (equal : Token)
    {others : List Element} (nonempty : others ≠ []) :
    Plan.expressionStatement .version3 path
        (.ofKind Grammar.version3.expressionStatement
          (.ofKind Grammar.version3.targetList targets :: equal.toElement Kind.equal :: others)) =
      .demand (.ok true) :: (Plan.targetList .version3 (path ++ [1])
          (.ofKind Grammar.version3.targetList targets) ++
        Plan.targetChain .version3 path (positioned 3 others).dropLast) := by
  let list := Element.ofKind Grammar.version3.targetList targets
  let statement := Element.ofKind Grammar.version3.expressionStatement
    (list :: equal.toElement Kind.equal :: others)
  have long : ¬ statement.elements.length < 4 := by
    have positive := List.length_pos_of_ne_nil nonempty
    simp only [statement, Element.ofKind, Element.elements, List.length_cons]
    omega
  have isList : statement.kindIs [1] Grammar.version3.targetList = .ok true := by
    rw [Element.kindIs_first, Element.kindIs_ofKind]
    rfl
  have notAugmented : statement.kindIs [2] Grammar.version3.augmentedAssignment = .ok false := by
    rw [Element.kindIs_second, Token.kindIs_toElement]
    rfl
  have isEqual : statement.kindIs [2] Kind.equal = .ok true := by
    rw [Element.kindIs_second, Token.kindIs_toElement]
    rfl
  have isFirst : statement.entry 1 = .ok list := Element.entry_part 0 rfl
  have numbered : statement.numbered 3 = positioned 3 others := by
    simp [statement, Element.numbered, Element.ofKind, positioned, List.zipIdx_cons]
  rw [Plan.expressionStatement, if_neg long, isList, notAugmented, isEqual, isFirst, numbered]
  rfl

/-- An assignment awaits all its targets. -/
theorem awaits (assignment : Assignment stars) (path : Path) :
    Plan.Notes [] (Plan.expressionStatement .version3 path assignment.toElement) []
      (assignment.places path 1) := by
  cases assignment with
  | last targets equal value =>
      have list := targets.awaits_list (path ++ [1])
      rw [Members.toElement] at list
      rw [toElement, elements, Members.toElement,
        expressionStatement_ofKind path _ equal (List.cons_ne_nil value.tree [])]
      simpa [positioned, Plan.targetChain, places] using list.demand
  | cons targets equal rest =>
      rw [toElement, elements, Members.toElement,
        expressionStatement_ofKind path _ equal rest.elements_ne_nil]
      exact .demand ((targets.awaits_list (path ++ [1])).append (rest.awaits_chain path 3))

end Assignment

end CrossRef
