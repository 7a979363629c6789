import CrossRef.Proofs.LineForm
import CrossRef.Workbench
import Mathlib.Data.List.Nodup

/-!
# Lines that are built item by item

Items are made one after the other and each is added to a line at once; an addition that fails leaves
the line as it is, and the next item is tried.  An addition fails exactly if a symbol, other than the end
of a function, would follow a symbol with another mark.  Whatever is added, symbols and plain text
alternate, the line knows whether it holds a symbol, and every end of a function stays an item of its
own.  Such a line can be written row by row.

On a workbench a line holds the very objects that were added to it.  As long as each item is a new
object, nothing else changes it, and the line on the workbench is the one that the items give by
themselves.
-/

namespace CrossRef

namespace Line

variable {line longer : Line} {item : Item}

/-! ## One addition -/

/-- Whether a symbol, other than the end of a function, would follow a symbol with another mark. -/
def clashes (line : Line) (item : Item) : Bool :=
  item.isSymbol && !item.isFunctionEnd &&
    line.items.getLast?.any fun last => last.isSymbol && last.mark? ≠ item.mark?

theorem clashes_iff : line.clashes item = true ↔
    item.isSymbol = true ∧ item.isFunctionEnd = false ∧
      ∃ last, line.items.getLast? = some last ∧ last.isSymbol = true ∧ last.mark? ≠ item.mark? := by
  simp only [clashes, Bool.and_eq_true, Bool.not_eq_true', Option.any_eq_true, decide_eq_true_eq,
    and_assoc]

/-- An addition that clashes with the last item fails. -/
theorem add_of_clashes (clash : line.clashes item = true) : line.add item = .error .marksDiffer := by
  rcases clashes_iff.mp clash with ⟨isSymbol, noEnd, last, follows, lastIsSymbol, differ⟩
  cases last with
  | plain text => cases lastIsSymbol
  | symbol mark name =>
      cases item with
      | plain text => cases isSymbol
      | symbol next more =>
          have fails : (Item.symbol mark name).merge (.symbol next more) = .error .marksDiffer :=
            if_neg differ
          simp only [add, follows, noEnd, Bool.false_eq_true, if_false, Item.isSymbol_symbol, if_true,
            fails]

/-- Only an addition that clashes with the last item fails. -/
theorem clashes_of_add {fault : Fault} (failed : line.add item = .error fault) :
    line.clashes item = true := by
  unfold add at failed
  split at failed
  next => cases failed
  next last follows =>
    split at failed
    next =>
      split at failed <;> cases failed
    next noEnd =>
      split at failed
      next sameSort =>
        split at failed
        next => cases failed
        next unmerged =>
          cases last with
          | plain text =>
              cases item with
              | plain more => cases unmerged
              | symbol mark name => cases sameSort
          | symbol mark name =>
              cases item with
              | plain text => cases sameSort
              | symbol next more =>
                  refine clashes_iff.mpr ⟨rfl, by simpa using noEnd, _, follows, rfl, ?_⟩
                  rintro rfl
                  simp [Item.merge] at unmerged
      next => cases failed

/-- An end of a function stays an item of its own, and no other item becomes one. -/
theorem Adds.functionEnds (adds : line.Adds item longer) :
    longer.items.filter Item.isFunctionEnd =
      line.items.filter Item.isFunctionEnd ++ [item].filter Item.isFunctionEnd := by
  cases adds with
  | pushed differs => simp
  | separated follows isSymbol ends => simp [separator, Item.isFunctionEnd]
  | @merged front last joined split noEnd sameSort merges =>
      -- What is merged agrees in its marks, and the added item is not the end of a function.
      have apart : last.isFunctionEnd = false := by
        rw [Item.isFunctionEnd_eq, (Item.merge_mark merges).1, ← Item.isFunctionEnd_eq, noEnd]
      have joinedApart := (Item.merge_name merges).2.1.trans apart
      simp [split, apart, joinedApart, noEnd]

/-! ## One addition after the other -/

/-- Adds items one after the other, passing over those that cannot be added. -/
def addEach (line : Line) : List Item → Line
  | [] => line
  | item :: rest =>
    match line.add item with
    | .ok longer => longer.addEach rest
    | .error _ => line.addEach rest

/-- The items that are added when some are tried one after the other. -/
def accepted (line : Line) : List Item → List Item
  | [] => []
  | item :: rest =>
    match line.add item with
    | .ok longer => item :: longer.accepted rest
    | .error _ => line.accepted rest

/-- What holds of a line and is kept by every addition holds however many items are tried. -/
theorem addEach_preserves {motive : Line → Prop}
    (kept : ∀ {line longer : Line} {item : Item}, line.Adds item longer → motive line → motive longer)
    (start : motive line) (items : List Item) : motive (line.addEach items) := by
  induction items generalizing line with
  | nil => exact start
  | cons item rest ih =>
      rw [addEach]
      split
      next longer added => exact ih (kept (add_adds added) start)
      next => exact ih start

/-- Ends of functions are never refused, and each stays an item of its own. -/
theorem addEach_functionEnds (line : Line) (items : List Item) :
    (line.addEach items).items.filter Item.isFunctionEnd =
      line.items.filter Item.isFunctionEnd ++ items.filter Item.isFunctionEnd := by
  induction items generalizing line with
  | nil => simp [addEach]
  | cons item rest ih =>
      rw [addEach]
      split
      next longer added =>
        rw [ih, (add_adds added).functionEnds, List.append_assoc, ← List.filter_append,
          List.singleton_append]
      next fault failed =>
        have noEnd := (clashes_iff.mp (clashes_of_add failed)).2.1
        rw [ih, List.filter_cons_of_neg (by simp [noEnd])]

/-- A line holds a symbol if it held one or one was added. -/
theorem addEach_any_isSymbol (line : Line) (items : List Item) :
    (line.addEach items).items.any Item.isSymbol =
      (line.items.any Item.isSymbol || (line.accepted items).any Item.isSymbol) := by
  induction items generalizing line with
  | nil => simp [addEach, accepted]
  | cons item rest ih =>
      cases added : line.add item with
      | ok longer =>
          simp only [addEach, accepted, added, ih, (add_adds added).any_isSymbol, List.any_cons,
            Bool.or_assoc]
      | error fault => simp only [addEach, accepted, added, ih]

/-! ## Writing a line row by row -/

/-- Puts the row of an item behind other rows.  A symbol asks for a space at the end of the row before
it, and fails if there is none. -/
def appendRow (rows : List String) : Item → Except Fault (List String)
  | .plain text => .ok (rows ++ [row (.plain text)])
  | .symbol mark name =>
    match rows.getLast? with
    | none => .error (.outOfRange "list")
    | some last =>
      .ok (rows.dropLast ++ [if last = " " then last else last ++ " ", row (.symbol mark name)])

/-- Puts the rows of items behind other rows. -/
def appendRows (rows : List String) : List Item → Except Fault (List String)
  | [] => .ok rows
  | item :: rest =>
    match appendRow rows item with
    | .ok longer => appendRows longer rest
    | .error fault => .error fault

/-- The rows of the first item of a line. -/
def firstRows (number : Nat) : Item → List String
  | .symbol mark name => [toString number ++ " ", row (.symbol mark name)]
  | .plain text => [toString number ++ " " ++ text]

/-- Writes a line item by item.  A line that claims to hold a symbol must have a first item. -/
def writeOut (line : Line) : Except Fault String :=
  if line.hasSymbol then
    match line.items with
    | [] => .error (.outOfRange "list")
    | first :: rest =>
      match appendRows (firstRows line.number first) rest with
      | .ok rows => .ok (String.intercalate "\n" rows ++ "\n\n")
      | .error fault => .error fault
  else .ok ""

/-- Changing the last row when a symbol comes is the same as looking ahead for the symbol. -/
theorem appendRows_eq (front : List String) (last : String) (items : List Item) :
    appendRows (front ++ [last]) items = .ok (front ++ closeRow last items :: laterRows items) := by
  induction items generalizing front last with
  | nil => rfl
  | cons item rest ih =>
      cases item with
      | plain text =>
          have step : appendRow (front ++ [last]) (.plain text) =
              .ok (front ++ [last] ++ [row (.plain text)]) := rfl
          simp only [appendRows, step]
          rw [ih, List.append_assoc]
          rfl
      | symbol mark name =>
          have step : appendRow (front ++ [last]) (.symbol mark name) =
              .ok (front ++ [if last = " " then last else last ++ " "] ++ [row (.symbol mark name)]) := by
            simp [appendRow]
          simp only [appendRows, step]
          rw [ih, List.append_assoc]
          rfl

/-- A line that knows whether it holds a symbol is written in full. -/
theorem writeOut_eq (honest : line.Honest) : line.writeOut = .ok line.render := by
  cases hasSymbol : line.hasSymbol with
  | false => simp [writeOut, render, hasSymbol]
  | true =>
      rw [Honest, hasSymbol] at honest
      cases items : line.items with
      | nil => simp [items] at honest
      | cons first rest =>
          have written : appendRows (firstRows line.number first) rest =
              .ok (rows line.number (first :: rest)) := by
            cases first with
            | plain text => exact appendRows_eq [] _ rest
            | symbol mark name => exact appendRows_eq [toString line.number ++ " "] _ rest
          simp [writeOut, render, hasSymbol, items, written]

/-- A line leaves no trace exactly if it holds no symbol. -/
theorem render_eq_empty_iff (line : Line) : line.render = "" ↔ line.hasSymbol = false := by
  cases hasSymbol : line.hasSymbol with
  | false => simp [render, hasSymbol]
  | true => simp [render, hasSymbol]

end Line

namespace Workbench

variable {workbench : Workbench} {handle : Handle} {line : Line} {item : Item}

/-! ## Lines on a workbench -/

/-- The line that a handle stands for, as it is at present. -/
def lineAt? (workbench : Workbench) (handle : Handle) : Option Line :=
  match workbench.get handle with
  | .line number contents hasSymbol => some (workbench.lineOf number contents hasSymbol)
  | _ => none

/-- Makes an item and adds it to a line. -/
def addNew (workbench : Workbench) (handle : Handle) (item : Item) : Outcome :=
  let made := workbench.insert (.item item)
  made.1.add "+=" handle (.object made.2)

/-- Makes items and adds each of them to a line, whether or not the one before could be added. -/
def addEachNew (workbench : Workbench) (handle : Handle) : List Item → Workbench
  | [] => workbench
  | item :: rest => (workbench.addNew handle item).workbench.addEachNew handle rest

/-- The items that can be added to a line when some are made and tried one after the other. -/
def acceptedNew (workbench : Workbench) (handle : Handle) : List Item → List Item
  | [] => []
  | item :: rest =>
    let outcome := workbench.addNew handle item
    let later := outcome.workbench.acceptedNew handle rest
    match outcome.result with
    | .ok _ => item :: later
    | .error _ => later

theorem lt_size_of_get (present : workbench.get handle ≠ .mark none) :
    handle < workbench.objects.size := by
  by_contra outside
  apply present
  rw [get, Array.getElem?_eq_none (Nat.le_of_not_lt outside)]
  rfl

theorem lt_size_of_item? (isItem : workbench.item? handle = some item) :
    handle < workbench.objects.size := by
  apply lt_size_of_get
  intro isMark
  simp [item?, isMark] at isItem

theorem get_insert (object : Object) (inside : handle < workbench.objects.size) :
    (workbench.insert object).1.get handle = workbench.get handle := by
  simp [get, insert, Array.getElem?_push, Nat.ne_of_lt inside]

theorem get_insert_self (workbench : Workbench) (object : Object) :
    (workbench.insert object).1.get (workbench.insert object).2 = object := by
  simp [get, insert]

theorem item?_insert_self (workbench : Workbench) (item : Item) :
    (workbench.insert (.item item)).1.item? (workbench.insert (.item item)).2 = some item := by
  rw [item?, get_insert_self]

theorem get_set_self (object : Object) (inside : handle < workbench.objects.size) :
    (workbench.set handle object).get handle = object := by
  simp [get, set, inside]

theorem get_set_of_ne (object : Object) {other : Handle} (apart : handle ≠ other) :
    (workbench.set handle object).get other = workbench.get other := by
  simp [get, set, apart]

/-- A handle stands for a line whose items are objects of their own. -/
structure Carries (workbench : Workbench) (handle : Handle) (line : Line) (contents : List Handle) :
    Prop where
  isLine : workbench.get handle = .line line.number contents line.hasSymbol
  areItems : contents.map workbench.item? = line.items.map some
  once : contents.Nodup

section

variable {contents : List Handle}

theorem Carries.lineOf_eq (carries : workbench.Carries handle line contents) :
    workbench.lineOf line.number contents line.hasSymbol = line := by
  have items : workbench.itemsOf contents = line.items := by
    have found : (contents.map workbench.item?).filterMap id = line.items := by
      rw [carries.areItems]
      simp
    rwa [List.filterMap_map, Function.id_comp] at found
  rw [lineOf, items]

theorem Carries.length_eq (carries : workbench.Carries handle line contents) :
    contents.length = line.items.length := by
  simpa using congrArg List.length carries.areItems

theorem exists_item_of_mem {items : List Item}
    (areItems : contents.map workbench.item? = items.map some) {entry : Handle}
    (member : entry ∈ contents) : ∃ item, workbench.item? entry = some item := by
  have found : workbench.item? entry ∈ items.map some := by
    rw [← areItems]
    exact List.mem_map_of_mem member
  rcases List.mem_map.mp found with ⟨item, _, isItem⟩
  exact ⟨item, isItem.symm⟩

theorem Carries.lt_size_of_mem (carries : workbench.Carries handle line contents) {entry : Handle}
    (member : entry ∈ contents) : entry < workbench.objects.size := by
  rcases exists_item_of_mem carries.areItems member with ⟨item, isItem⟩
  exact lt_size_of_item? isItem

theorem Carries.lt_size (carries : workbench.Carries handle line contents) :
    handle < workbench.objects.size := by
  apply lt_size_of_get
  rw [carries.isLine]
  intro isMark
  cases isMark

/-- A line stays what it is as long as its object and those of its items are left alone. -/
theorem Carries.congr {other : Workbench} (carries : workbench.Carries handle line contents)
    (same : ∀ entry ∈ handle :: contents, other.get entry = workbench.get entry) :
    other.Carries handle line contents := by
  refine ⟨(same handle List.mem_cons_self).trans carries.isLine, ?_, carries.once⟩
  rw [← carries.areItems]
  apply List.map_congr_left
  intro entry member
  rw [item?, item?, same entry (List.mem_cons_of_mem _ member)]

theorem Carries.insert (carries : workbench.Carries handle line contents) (object : Object) :
    (workbench.insert object).1.Carries handle line contents := by
  apply carries.congr
  intro entry member
  apply get_insert
  rcases List.mem_cons.mp member with rfl | inContents
  · exact carries.lt_size
  · exact carries.lt_size_of_mem inContents

/-- A line can be given other contents. -/
theorem Carries.setContents (carries : workbench.Carries handle line contents) {longer : Line}
    {more : List Handle} (sameNumber : longer.number = line.number)
    (areItems : more.map workbench.item? = longer.items.map some) (once : more.Nodup) :
    (workbench.set handle (.line line.number more longer.hasSymbol)).Carries handle longer more := by
  refine ⟨?_, ?_, once⟩
  · rw [get_set_self _ carries.lt_size, sameNumber]
  · rw [← areItems]
    apply List.map_congr_left
    intro entry member
    rcases exists_item_of_mem areItems member with ⟨item, isItem⟩
    have apart : handle ≠ entry := by
      rintro rfl
      simp [item?, carries.isLine] at isItem
    rw [item?, item?, get_set_of_ne _ apart]

/-- The last item of a line can be changed in its place. -/
theorem Carries.setLast {front : List Handle} {entry : Handle}
    (carries : workbench.Carries handle line (front ++ [entry])) {before : List Item} {last : Item}
    (split : line.items = before ++ [last]) (joined : Item) :
    (workbench.set entry (.item joined)).Carries handle { line with items := before ++ [joined] }
      (front ++ [entry]) := by
  have areItems := carries.areItems
  rw [split, List.map_append, List.map_append] at areItems
  have sameLength : (front.map workbench.item?).length = (before.map some).length := by
    have whole := congrArg List.length areItems
    simpa using whole
  rcases List.append_inj areItems sameLength with ⟨inFront, isLast⟩
  have isEntry : workbench.item? entry = some last := by simpa using isLast
  refine ⟨?_, ?_, carries.once⟩
  · have apart : entry ≠ handle := by
      rintro rfl
      simp [item?, carries.isLine] at isEntry
    rw [get_set_of_ne _ apart]
    exact carries.isLine
  · have kept : front.map (workbench.set entry (.item joined)).item? = front.map workbench.item? := by
      apply List.map_congr_left
      intro other member
      have apart : entry ≠ other := by
        rintro rfl
        exact (List.nodup_append.mp carries.once).2.2 entry member entry (List.mem_singleton_self _) rfl
      rw [item?, item?, get_set_of_ne _ apart]
    have changed : (workbench.set entry (.item joined)).item? entry = some joined := by
      rw [item?, get_set_self _ (lt_size_of_item? isEntry)]
    rw [List.map_append, List.map_append, kept, inFront, List.map_singleton, changed, List.map_singleton]

/-- What becomes of a line on a workbench when another object is added to it is what becomes of the line
by itself. -/
theorem Carries.addToLine (carries : workbench.Carries handle line contents) {entry : Handle}
    (isEntry : workbench.item? entry = some item) (new : entry ∉ contents) {longer : Line}
    (added : line.add item = .ok longer) :
    ∃ (next : Workbench) (more : List Handle),
      workbench.addToLine handle line.number contents line.hasSymbol entry item =
        next.gives (.object handle) ∧ next.Carries handle longer more := by
  have isSize := carries.length_eq
  unfold Workbench.addToLine
  rw [carries.lineOf_eq, added]
  cases Line.add_adds added with
  | pushed differs =>
      have one : (line.push item).items.length - contents.length = 1 := by
        simp only [Line.push, List.length_append, List.length_singleton]
        omega
      simp only [one]
      refine ⟨_, contents ++ [entry], rfl, carries.setContents rfl ?_ ?_⟩
      · simp [carries.areItems, isEntry]
      · rw [List.nodup_middle, List.append_nil]
        exact List.nodup_cons.mpr ⟨new, carries.once⟩
  | separated follows isSymbol ends =>
      have two : ((line.push Line.separator).push item).items.length - contents.length = 2 := by
        simp only [Line.push, List.length_append, List.length_singleton]
        omega
      simp only [two]
      have carriesOn := carries.insert (.item Line.separator)
      have entryOn : (workbench.insert (.item Line.separator)).1.item? entry = some item := by
        rw [← isEntry, item?, item?, get_insert _ (lt_size_of_item? isEntry)]
      refine ⟨_, _, rfl, carriesOn.setContents rfl ?_ ?_⟩
      · rw [List.map_append, carriesOn.areItems]
        simp [entryOn, item?_insert_self]
      · rw [List.nodup_middle, List.nodup_cons, List.nodup_middle, List.append_nil, List.nodup_cons]
        refine ⟨?_, new, carries.once⟩
        intro member
        have inside : (workbench.insert (.item Line.separator)).2 < workbench.objects.size := by
          rcases List.mem_append.mp member with inContents | isLast
          · exact carries.lt_size_of_mem inContents
          · rw [List.mem_singleton.mp isLast]
            exact lt_size_of_item? isEntry
        exact Nat.lt_irrefl _ inside
  | @merged before last joined split noEnd sameSort merges =>
      -- The object of the last item is changed, and no object is added.
      have none : (before ++ [joined]).length - contents.length = 0 := by
        rw [split] at isSize
        simp only [List.length_append, List.length_singleton] at isSize ⊢
        omega
      have notEmpty : contents ≠ [] := by
        rintro rfl
        simp [split] at isSize
      rcases List.eq_nil_or_concat contents with isEmpty | ⟨front, entry, isContents⟩
      · exact absurd isEmpty notEmpty
      · rw [List.concat_eq_append] at isContents
        subst isContents
        simp only [none, List.getLast?_concat]
        exact ⟨_, _, rfl, carries.setLast split joined⟩

theorem Carries.addNew_eq (carries : workbench.Carries handle line contents) (item : Item) :
    workbench.addNew handle item =
      (workbench.insert (.item item)).1.addToLine handle line.number contents line.hasSymbol
        (workbench.insert (.item item)).2 item := by
  simp only [addNew, add, item?_insert_self, Option.map_some, (carries.insert (.item item)).isLine]

/-- A new item that can be added is added. -/
theorem Carries.addNew_ok (carries : workbench.Carries handle line contents) {longer : Line}
    (added : line.add item = .ok longer) :
    ∃ (next : Workbench) (more : List Handle),
      workbench.addNew handle item = next.gives (.object handle) ∧ next.Carries handle longer more := by
  have new : (workbench.insert (.item item)).2 ∉ contents := by
    intro member
    exact Nat.lt_irrefl _ (carries.lt_size_of_mem member)
  rw [carries.addNew_eq]
  exact (carries.insert (.item item)).addToLine (item?_insert_self _ _) new added

/-- A new item that cannot be added changes nothing. -/
theorem Carries.addNew_error (carries : workbench.Carries handle line contents) {fault : Fault}
    (failed : line.add item = .error fault) :
    workbench.addNew handle item = (workbench.insert (.item item)).1.fails fault := by
  rw [carries.addNew_eq, Workbench.addToLine, (carries.insert (.item item)).lineOf_eq, failed]

/-- New items make of a line on a workbench what they make of the line by itself. -/
theorem Carries.addEachNew (carries : workbench.Carries handle line contents) (items : List Item) :
    workbench.acceptedNew handle items = line.accepted items ∧
      ∃ more, (workbench.addEachNew handle items).Carries handle (line.addEach items) more := by
  induction items generalizing workbench line contents with
  | nil => exact ⟨rfl, contents, carries⟩
  | cons item rest ih =>
      cases added : line.add item with
      | ok longer =>
          rcases carries.addNew_ok added with ⟨next, more, outcome, carriesOn⟩
          rcases ih carriesOn with ⟨accepts, carriesRest⟩
          simp only [acceptedNew, Line.accepted, Workbench.addEachNew, Line.addEach, added, outcome, gives]
          exact ⟨congrArg _ accepts, carriesRest⟩
      | error fault =>
          rcases ih (carries.insert (.item item)) with ⟨accepts, carriesRest⟩
          simp only [acceptedNew, Line.accepted, Workbench.addEachNew, Line.addEach, added,
            carries.addNew_error added, fails]
          exact ⟨accepts, carriesRest⟩

theorem Carries.textOf_eq (carries : workbench.Carries handle line contents) :
    workbench.textOf (workbench.get handle) = line.render := by
  rw [carries.isLine, textOf, carries.lineOf_eq]

theorem Carries.lineAt?_eq (carries : workbench.Carries handle line contents) :
    workbench.lineAt? handle = some line := by
  rw [lineAt?, carries.isLine]
  exact congrArg some carries.lineOf_eq

/-- A new line has no items. -/
theorem makeLine_carries (workbench : Workbench) {number : Int} (positive : 0 < number) :
    ∃ (start : Workbench) (handle : Handle),
      workbench.makeLine (some (.plain (.int number))) = start.gives (.object handle) ∧
      start.Carries handle { number := number.toNat } [] := by
  refine ⟨(workbench.insert (.line number.toNat [] false)).1, workbench.objects.size, ?_, ?_⟩
  · simp only [makeLine, Line.start, if_pos positive, Except.map, place]
    rfl
  · exact ⟨get_insert_self _ _, rfl, List.nodup_nil⟩

end

/-- Whatever new items are added to a new line, those that fail among them, it keeps its form: symbols
and plain text alternate, it knows whether it holds a symbol, and every end of a function is an item of its
own.  An addition fails exactly if a symbol other than the end of a function would follow a symbol with
another mark, and then the line stays as it is.  The line can always be written, and gives nothing
exactly if no symbol was added. -/
theorem line_keeps_form (workbench : Workbench) {number : Int} (positive : 0 < number)
    (items : List Item) :
    ∃ (start built : Workbench) (handle : Handle) (line : Line),
      workbench.makeLine (some (.plain (.int number))) = start.gives (.object handle) ∧
      start.addEachNew handle items = built ∧
      built.lineAt? handle = some line ∧ line.number = number ∧
      Item.Alternate line.items ∧
      (line.hasSymbol = true ↔ ∃ item ∈ line.items, item.isSymbol = true) ∧
      line.items.filter Item.isFunctionEnd = items.filter Item.isFunctionEnd ∧
      (∀ item, if line.clashes item then
          (built.addNew handle item).result = .error .marksDiffer ∧
            (built.addNew handle item).workbench.lineAt? handle = some line
        else (built.addNew handle item).result = .ok (.object handle)) ∧
      line.writeOut = .ok (built.textOf (built.get handle)) ∧
      (built.textOf (built.get handle) = "" ↔
        ∀ item ∈ start.acceptedNew handle items, item.isSymbol = false) := by
  rcases makeLine_carries workbench positive with ⟨start, handle, made, carries⟩
  rcases carries.addEachNew items with ⟨accepts, contents, carriesOn⟩
  generalize isLine : Line.addEach { number := number.toNat } items = line at carriesOn
  have isNumber : line.number = number.toNat := by
    rw [← isLine]
    exact Line.addEach_preserves (motive := fun line => line.number = number.toNat)
      (fun adds same => adds.number.trans same) rfl items
  have honest : line.Honest := by
    rw [← isLine]
    exact Line.addEach_preserves Line.Adds.honest (show Line.Honest { number := number.toNat } from rfl)
      items
  have alternate : Item.Alternate line.items := by
    rw [← isLine]
    exact Line.addEach_preserves (motive := fun line => Item.Alternate line.items)
      Line.Adds.alternate (show Item.Alternate [] from List.isChain_nil) items
  refine ⟨start, _, handle, line, made, rfl, carriesOn.lineAt?_eq, ?_, alternate, ?_, ?_, ?_, ?_⟩
  · rw [isNumber]
    omega
  · rw [honest, List.any_eq_true]
  · rw [← isLine, Line.addEach_functionEnds]
    rfl
  · intro item
    split
    next clash =>
      rw [carriesOn.addNew_error (Line.add_of_clashes clash)]
      exact ⟨rfl, (carriesOn.insert (.item item)).lineAt?_eq⟩
    next noClash =>
      cases added : line.add item with
      | ok longer =>
          rcases carriesOn.addNew_ok added with ⟨next, _, outcome, _⟩
          rw [outcome]
          rfl
      | error fault => exact absurd (Line.clashes_of_add added) noClash
  · rw [carriesOn.textOf_eq]
    refine ⟨Line.writeOut_eq honest, ?_⟩
    rw [Line.render_eq_empty_iff, honest, ← isLine, Line.addEach_any_isSymbol, accepts]
    simp

/-- Text, a call, an unmarked symbol that may not follow it, and two ends of functions. -/
def mixedItems : List Item :=
  [.plain "x", .symbol (some .call) "f", .symbol none "g", .symbol (some .functionEnd) "",
    .symbol (some .functionEnd) ""]

theorem line_keeps_form_mixedItems :
    (0 : Int) < 3 ∧
    ∃ (start built : Workbench) (handle : Handle) (line : Line),
      ({} : Workbench).makeLine (some (.plain (.int 3))) = start.gives (.object handle) ∧
      start.addEachNew handle mixedItems = built ∧ built.lineAt? handle = some line ∧
      Item.Alternate line.items ∧
      line.items.filter Item.isFunctionEnd =
        [.symbol (some .functionEnd) "", .symbol (some .functionEnd) ""] ∧
      line.writeOut = .ok (built.textOf (built.get handle)) := by
  refine ⟨by decide, ?_⟩
  rcases line_keeps_form {} (show (0 : Int) < 3 by decide) mixedItems with
    ⟨start, built, handle, line, made, isBuilt, isLine, _, alternate, _, ends, _, written, _⟩
  exact ⟨start, built, handle, line, made, isBuilt, isLine, alternate, ends, written⟩

end Workbench

end CrossRef
