import CrossRef.Storage.Path

/-!
# Names on a path

A path is made of the names of entries, each put behind the directory that it is listed in.  Joining is
associative, and putting a name behind any path adds exactly that name to the parts of the path and to
the names that it comes to, so names can be joined to paths and read back one by one.
-/

namespace CrossRef.Storage

/-- Whether a text can be listed as the name of an entry: it is not empty, has no slash and is neither of
the two that stand for a directory itself and for the one above it. -/
def isName (text : String) : Bool :=
  text ≠ "" && text ≠ "." && text ≠ ".." && !text.toList.contains '/'

/-- The path that leads from a directory through the given names. -/
def relative (names : List String) : String :=
  String.intercalate "/" names

theorem slash_notMem_of_isName {name : String} (proper : isName name = true) : '/' ∉ name.toList := by
  simp only [isName, Bool.and_eq_true, Bool.not_eq_true', List.contains_eq_mem,
    decide_eq_false_iff_not] at proper
  exact proper.2

theorem ne_empty_of_isName {name : String} (proper : isName name = true) : name.toList ≠ [] := by
  rintro isEmpty
  rw [String.toList_eq_nil_iff] at isEmpty
  subst isEmpty
  cases proper

theorem head_ne_slash {name : String} (proper : isName name = true) (behind : List Char) :
    (name.toList ++ behind).head? ≠ some '/' := by
  rw [List.head?_append, List.head?_eq_some_head (ne_empty_of_isName proper), Option.some_or]
  intro isSlash
  apply slash_notMem_of_isName proper
  rw [← Option.some.inj isSlash]
  exact List.head_mem _

/-! ## Joining -/

/-- What stands between a directory and a path behind it. -/
def separator (directory : List Char) : List Char :=
  if directory = [] ∨ directory.getLast? = some '/' then [] else ['/']

/-- Joining, character by character. -/
def joinChars (directory path : List Char) : List Char :=
  if path.head? = some '/' then path else directory ++ (separator directory ++ path)

theorem startsWith_slash_iff (text : String) :
    text.startsWith "/" = true ↔ text.toList.head? = some '/' := by
  rw [String.startsWith_string_iff]
  cases text.toList with
  | nil => simp
  | cons first rest => simp [eq_comm]

theorem endsWith_slash_iff (text : String) :
    text.endsWith "/" = true ↔ text.toList.getLast? = some '/' := by
  rw [String.endsWith_eq_endsWith_toSlice, String.Slice.endsWith_string_iff, String.copy_toSlice]
  exact List.singleton_suffix_iff_getLast?_eq_some

theorem toList_join (directory path : String) :
    (join directory path).toList = joinChars directory.toList path.toList := by
  have isEmpty : directory.isEmpty = true ↔ directory.toList = [] := by
    rw [String.isEmpty_iff, String.toList_eq_nil_iff]
  unfold join joinChars separator
  simp only [Bool.or_eq_true, isEmpty, startsWith_slash_iff, endsWith_slash_iff]
  split
  · rfl
  · split <;> simp

theorem separator_append (first : List Char) {second : List Char} (nonempty : second ≠ []) :
    separator (first ++ second) = separator second := by
  unfold separator
  rw [List.getLast?_append, List.getLast?_eq_some_getLast nonempty, Option.some_or]
  simp [nonempty]

/-- A directory that has been closed needs nothing more in front of a path. -/
theorem separator_closed (directory : List Char) :
    separator (directory ++ separator directory) = [] := by
  by_cases closed : directory = [] ∨ directory.getLast? = some '/'
  · have nothing : separator directory = [] := if_pos closed
    rw [nothing, List.append_nil, nothing]
  · have slash : separator directory = ['/'] := if_neg closed
    rw [slash, separator_append directory (List.cons_ne_nil '/' [])]
    rfl

theorem joinChars_assoc (first second third : List Char) :
    joinChars first (joinChars second third) = joinChars (joinChars first second) third := by
  by_cases absolute : third.head? = some '/'
  · simp only [joinChars, absolute, if_true]
  · by_cases isEmpty : second = []
    · subst isEmpty
      have nothing : separator [] = [] := rfl
      simp [joinChars, absolute, nothing, separator_closed]
    · have start : (second ++ (separator second ++ third)).head? = second.head? := by
        rw [List.head?_append, List.head?_eq_some_head isEmpty, Option.some_or]
      have behind : separator (first ++ (separator first ++ second)) = separator second := by
        rw [← List.append_assoc, separator_append _ isEmpty]
      by_cases rooted : second.head? = some '/'
      · simp only [joinChars, absolute, start, rooted, if_true, if_false]
      · simp only [joinChars, absolute, start, rooted, behind, if_false, List.append_assoc]

/-- Joining is associative. -/
theorem join_assoc (first second third : String) :
    join first (join second third) = join (join first second) third := by
  apply String.toList_injective
  simp only [toList_join]
  exact joinChars_assoc first.toList second.toList third.toList

/-! ## Reading a path -/

theorem splitSlashes_ne_nil (chars : List Char) : splitSlashes chars ≠ [] := by
  fun_induction splitSlashes chars with
  | case1 => simp
  | case2 rest ih => simp
  | case3 char rest notSlash ih =>
      cases splitSlashes rest <;> simp [Text.consRow]

theorem splitSlashes_append (first second : List Char) :
    splitSlashes (first ++ '/' :: second) = splitSlashes first ++ splitSlashes second := by
  fun_induction splitSlashes first with
  | case1 => simp [splitSlashes]
  | case2 rest ih => simp [splitSlashes, ih]
  | case3 char rest notSlash ih =>
      have nonempty := splitSlashes_ne_nil rest
      simp only [List.cons_append, splitSlashes, ih]
      cases parts : splitSlashes rest with
      | nil => exact absurd parts nonempty
      | cons row rows => rfl

theorem splitSlashes_of_notMem {chars : List Char} (slashFree : '/' ∉ chars) :
    splitSlashes chars = [chars] := by
  induction chars with
  | nil => rfl
  | cons char rest ih =>
      rw [List.mem_cons, not_or] at slashFree
      rw [splitSlashes, ih slashFree.2, Text.consRow]
      exact Ne.symm slashFree.1

theorem stepPart_of_isName {name : String} (proper : isName name = true) (names : List String) :
    stepPart names name = names ++ [name] := by
  simp only [isName, Bool.and_eq_true, decide_eq_true_eq, ne_eq] at proper
  simp [stepPart, proper.1.1.1, proper.1.1.2, proper.1.2]

theorem partsOf_slash (first second : List Char) :
    partsOf (String.ofList (first ++ '/' :: second)) =
      partsOf (String.ofList first) ++ partsOf (String.ofList second) := by
  simp only [partsOf, String.toList_ofList, splitSlashes_append, List.map_append]

theorem partsOf_of_isName {name : String} (proper : isName name = true) : partsOf name = [name] := by
  rw [partsOf, splitSlashes_of_notMem (slash_notMem_of_isName proper)]
  simp

/-- A name behind a path is its last part, in the place of the empty part that a path to a directory may
end in. -/
theorem partsOf_join (directory : String) {name : String} (proper : isName name = true) :
    partsOf (join directory name) = partsOf directory ++ [name] ∨
      ∃ front, partsOf directory = front ++ [""] ∧ partsOf (join directory name) = front ++ [name] := by
  have start := head_ne_slash proper []
  rw [List.append_nil] at start
  have joined : join directory name =
      String.ofList (directory.toList ++ (separator directory.toList ++ name.toList)) := by
    apply String.toList_injective
    rw [toList_join, joinChars, if_neg start, String.toList_ofList]
  rw [joined, separator]
  split
  next closed =>
    right
    rcases closed with isEmpty | ends
    · rw [String.toList_eq_nil_iff] at isEmpty
      subst isEmpty
      refine ⟨[], rfl, ?_⟩
      rw [String.toList_empty, List.nil_append, List.nil_append, String.ofList_toList,
        partsOf_of_isName proper, List.nil_append]
    · rcases List.getLast?_eq_some_iff.mp ends with ⟨inner, isInner⟩
      have same : directory = String.ofList (inner ++ ['/']) := by
        rw [← isInner, String.ofList_toList]
      refine ⟨partsOf (String.ofList inner), ?_, ?_⟩
      · rw [same, partsOf_slash]
        rfl
      · rw [isInner, List.nil_append, List.append_assoc, List.singleton_append, partsOf_slash,
          String.ofList_toList, partsOf_of_isName proper]
  next =>
    left
    rw [List.singleton_append, partsOf_slash, String.ofList_toList, String.ofList_toList,
      partsOf_of_isName proper]

/-- A name behind a path is the last of the names that the path comes to. -/
theorem namesOf_join (directory : String) {name : String} (proper : isName name = true) :
    namesOf (join directory name) = namesOf directory ++ [name] := by
  unfold namesOf
  rcases partsOf_join directory proper with behind | ⟨front, isFront, behind⟩
  · rw [behind, List.foldl_append]
    exact stepPart_of_isName proper _
  · rw [behind, isFront, List.foldl_append, List.foldl_append]
    exact stepPart_of_isName proper _

/-- A path through names does not start at the root. -/
theorem relative_head {names : List String} (nonempty : names ≠ [])
    (all : ∀ name ∈ names, isName name = true) : (relative names).toList.head? ≠ some '/' := by
  cases names with
  | nil => exact absurd rfl nonempty
  | cons name rest =>
      rw [List.forall_mem_cons] at all
      cases rest with
      | nil =>
          have start := head_ne_slash all.1 []
          rwa [List.append_nil] at start
      | cons next others =>
          rw [relative, String.intercalate_cons_cons, String.toList_append, String.toList_append,
            List.append_assoc]
          exact head_ne_slash all.1 _

/-- A path through several names is a path behind the first of them. -/
theorem relative_cons {name : String} (proper : isName name = true) {names : List String}
    (nonempty : names ≠ []) (all : ∀ other ∈ names, isName other = true) :
    relative (name :: names) = join name (relative names) := by
  have opens : separator name.toList = ['/'] := by
    apply if_neg
    rintro (isEmpty | ends)
    · exact ne_empty_of_isName proper isEmpty
    · exact slash_notMem_of_isName proper (List.mem_of_getLast? ends)
  apply String.toList_injective
  rw [toList_join, joinChars, if_neg (relative_head nonempty all), opens, relative,
    String.intercalate_cons_of_ne_nil nonempty]
  simp [relative]

/-- Names behind a path are the last of the names that the path comes to. -/
theorem namesOf_join_relative (directory : String) {names : List String} (nonempty : names ≠ [])
    (all : ∀ name ∈ names, isName name = true) :
    namesOf (join directory (relative names)) = namesOf directory ++ names := by
  induction names generalizing directory with
  | nil => exact absurd rfl nonempty
  | cons name rest ih =>
      rw [List.forall_mem_cons] at all
      cases rest with
      | nil => exact namesOf_join directory all.1
      | cons next others =>
          have behind : next :: others ≠ [] := List.cons_ne_nil next others
          rw [relative_cons all.1 behind all.2, join_assoc, ih _ behind all.2, namesOf_join directory all.1,
            List.append_assoc, List.singleton_append]

end CrossRef.Storage
