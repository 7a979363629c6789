import CrossRef.IndexFile
import CrossRef.Proofs.Legibility

/-!
# Reading an index file

An index file is held together by its rows.  A file mark stands on a row of its own with an empty
row behind it; the rows of a block go on to the next empty row; and an empty row where a block could
start announces the next file mark, of which the last one has no name.  Inside a block symbols and
plain text take turns, so the row of an item need not say of which sort it is.  `decode` reads an
index file by these rules; this module shows that it reads back every legible line.
-/

namespace CrossRef

namespace IndexFile

/-- A row of an index file, without the line feed that ends it. -/
abbrev Row := List Char

/-- What an index says of a line: its number and its items.  A line can be missing. -/
abbrev Block := Option (Nat × List Item)

/-- What an index says of a file. -/
structure Record where
  name : String
  blocks : List Block
  deriving DecidableEq, Repr

/-- What an index file says. -/
structure Contents where
  directory : String
  records : List Record
  deriving DecidableEq, Repr

/-- The symbol on a row. -/
def readSymbol (row : Row) : Item :=
  match row with
  | '\t' :: sign :: name => .symbol (Mark.ofSign? (String.singleton sign)) (String.ofList name)
  | _ => .symbol none (String.ofList row)

/-- The plain text on a row, which is followed by a space unless it ends the block. -/
def readPlain (row : Row) (ends : Bool) : Item :=
  if row = [' '] then .plain " "
  else if ends then .plain (String.ofList row.tail)
  else .plain (String.ofList row.tail.dropLast)

/-- The items on some rows, of which the first holds a symbol or plain text. -/
def readItems : Bool → List Row → List Item
  | _, [] => []
  | true, row :: rest => readSymbol row :: readItems false rest
  | false, row :: rest => readPlain row rest.isEmpty :: readItems true rest

/-- The line on some rows: its number, and its first item on the same row if that is plain text. -/
def readLine : List Row → Nat × List Item
  | [] => (0, [])
  | first :: rest =>
    let text := (first.dropWhile Char.isDigit).tail
    let items := readItems true rest
    (Nat.ofDigitChars 10 (first.takeWhile Char.isDigit) 0,
      if text.isEmpty then items else .plain (String.ofList text.dropLast) :: items)

/-- Where a reader stands in an index. -/
inductive Place where
  /-- In front of a file mark. -/
  | mark
  /-- Behind a file mark. -/
  | gap
  /-- Where a block could start. -/
  | start
  /-- Behind the first rows of a block. -/
  | block (rows : List Row)

/-- The row of a missing line. -/
def missing : Row := "None".toList

/-- What the rows of an index say from some place on: the blocks of the file at hand and the records
of the files behind it. -/
def readRows : Place → List Row → Option (List Block × List Record)
  | _, [] => none
  | .mark, row :: rest =>
    match row with
    | ['\t', '@'] => some ([], [])
    | '\t' :: '@' :: name =>
      (readRows .gap rest).map fun found => ([], ⟨String.ofList name, found.1⟩ :: found.2)
    | _ => none
  | .gap, row :: rest => if row.isEmpty then readRows .start rest else none
  | .start, row :: rest =>
    if row.isEmpty then readRows .mark rest
    else if row = missing then (readRows .mark rest).map fun found => (none :: found.1, found.2)
    else readRows (.block [row]) rest
  | .block rows, row :: rest =>
    if row.isEmpty then
      (readRows .start rest).map fun found => (some (readLine rows) :: found.1, found.2)
    else readRows (.block (rows ++ [row])) rest

/-- The directory in a header: what stands between its first ten characters and the position of the
trailer, which has an option in front. -/
def readHeader (row : Row) : String :=
  String.ofList (((row.reverse.dropWhile Char.isDigit).drop 4).reverse.drop 10)

/-- What an index file says. -/
def decode (text : String) : Option Contents :=
  match text.toList.splitOn '\n' with
  | [] => none
  | first :: rest => (readRows .mark rest).map fun found => ⟨readHeader first, found.2⟩

/-! ## Items on their rows -/

theorem ofSign?_sign (mark : Mark) : Mark.ofSign? mark.sign = some mark := by
  cases mark <;> decide

/-- The sign of a mark is one character. -/
theorem exists_sign (mark : Mark) : ∃ sign, mark.sign = String.singleton sign ∧ sign ≠ '\n' := by
  refine ⟨mark.sign.toList.headD ' ', ?_, ?_⟩
  · cases mark <;> decide
  · cases mark <;> decide

theorem row_symbol (mark : Option Mark) (name : String) :
    Line.row (.symbol mark name) = Mark.renderOptional mark ++ name :=
  rfl

theorem readSymbol_row {mark : Option Mark} {name : String}
    (legible : (Item.symbol mark name).Legible) :
    readSymbol (Line.row (.symbol mark name)).toList = .symbol mark name := by
  rw [row_symbol]
  cases mark with
  | none =>
      rcases legible.2 rfl with ⟨first, rest, letters, noTab⟩
      have whole : (Mark.renderOptional none ++ name).toList = first :: rest := by
        simp [Mark.renderOptional, letters]
      rw [whole]
      unfold readSymbol
      split
      next same => exact absurd (List.cons.inj same).1 noTab
      next => rw [← letters, String.ofList_toList]
  | some mark =>
      rcases exists_sign mark with ⟨sign, isSign, _⟩
      have whole : (Mark.renderOptional (some mark) ++ name).toList = '\t' :: sign :: name.toList := by
        simp [Mark.renderOptional, Mark.render, isSign]
      rw [whole]
      simp only [readSymbol, ← isSign, ofSign?_sign, String.ofList_toList]

/-- Plain text behind the first item has a space in front, and one behind it if a symbol follows; a
text that is a space is all of these. -/
theorem readPlain_row {text : String} (present : text ≠ "") (following : List Item)
    (follows : ∀ item, following.head? = some item → item.isSymbol = true) :
    readPlain (Line.closeRow (Line.row (.plain text)) following).toList following.isEmpty =
      .plain text := by
  have longer (rest : String) : (" " ++ text ++ rest).toList ≠ [' '] := by
    intro same
    have empty : text = "" ∧ rest = "" := by simpa using same
    exact present empty.1
  by_cases space : text = " "
  · subst space
    have closed : Line.closeRow (Line.row (.plain " ")) following = " " := by
      unfold Line.closeRow
      split <;> rfl
    rw [closed]
    rfl
  · have isRow : Line.row (.plain text) = " " ++ text := if_neg space
    have wide : (" " ++ text).toList ≠ [' '] := by simpa using longer ""
    rw [isRow]
    cases following with
    | nil => simp [Line.closeRow, readPlain, present]
    | cons next rest =>
        cases next with
        | plain other => simpa using follows _ rfl
        | symbol mark name =>
            have closed :
                Line.closeRow (" " ++ text) (.symbol mark name :: rest) = " " ++ text ++ " " := by
              apply if_neg
              intro same
              exact wide (by rw [same]; rfl)
            rw [closed]
            simp only [readPlain, if_neg (longer " "), List.isEmpty_cons]
            simp

/-- The items behind the first of a line are read back from their rows. -/
theorem readItems_laterRows {items : List Item} (isSymbol : Bool)
    (starts : ∀ item, items.head? = some item → item.isSymbol = isSymbol)
    (alternate : Item.Alternate items) (legible : ∀ item ∈ items, item.Legible) :
    readItems isSymbol ((Line.laterRows items).map String.toList) = items := by
  induction items generalizing isSymbol with
  | nil => cases isSymbol <;> rfl
  | cons item rest ih =>
      have restAlternate : Item.Alternate rest := List.IsChain.tail alternate
      have restLegible : ∀ other ∈ rest, other.Legible := fun other member =>
        legible other (List.mem_cons_of_mem _ member)
      have turns : ∀ next, rest.head? = some next → next.isSymbol = !isSymbol := by
        intro next isNext
        have differs := (List.isChain_cons.mp alternate).1 next isNext
        rw [← starts item rfl]
        exact Bool.eq_not.mpr fun same => differs same.symm
      have later := ih (!isSymbol) turns restAlternate restLegible
      have itemLegible := legible item List.mem_cons_self
      cases item with
      | symbol mark name =>
          have isTrue : true = isSymbol := starts _ rfl
          subst isTrue
          have unchanged :
              Line.closeRow (Line.row (.symbol mark name)) rest =
                Line.row (.symbol mark name) := by
            unfold Line.closeRow
            split
            next => simpa using turns _ rfl
            · rfl
          rw [Line.laterRows, List.map_cons, readItems, unchanged, readSymbol_row itemLegible]
          exact congrArg _ later
      | plain text =>
          have isFalse : false = isSymbol := starts _ rfl
          subst isFalse
          have ends : ((Line.laterRows rest).map String.toList).isEmpty = rest.isEmpty := by
            cases rest <;> rfl
          rw [Line.laterRows, List.map_cons, readItems, ends, readPlain_row itemLegible.1 rest turns]
          exact congrArg _ later

/-! ## Lines on their rows -/

/-- The first row of a line is read up to the space behind the number. -/
theorem readLine_cons (number : Nat) (text : Row) (rest : List Row) :
    readLine (((toString number).toList ++ ' ' :: text) :: rest) =
      (number, if text.isEmpty then readItems true rest
        else .plain (String.ofList text.dropLast) :: readItems true rest) := by
  have digits := Line.toList_toString number
  have all : ∀ char ∈ Nat.toDigits 10 number, char.isDigit = true := fun _ => Line.isDigit_of_mem
  have noDigit : Char.isDigit ' ' = false := by decide
  have front : ((toString number).toList ++ ' ' :: text).takeWhile Char.isDigit =
      Nat.toDigits 10 number := by
    rw [digits, List.takeWhile_append_of_pos all]
    simp [noDigit]
  have back : (((toString number).toList ++ ' ' :: text).dropWhile Char.isDigit).tail = text := by
    rw [digits, List.dropWhile_append_of_pos all]
    simp [noDigit]
  simp only [readLine, front, back, Nat.ofDigitChars_ten_toDigits]

/-- The first row of a line that starts with plain text, which a symbol follows. -/
theorem rows_plain (number : Nat) {text name : String} {mark : Option Mark} {rest : List Item}
    (present : text ≠ "") :
    Line.rows number (.plain text :: .symbol mark name :: rest) =
      (toString number ++ " " ++ text ++ " ") :: Line.laterRows (.symbol mark name :: rest) := by
  have wide : toString number ++ " " ++ text ≠ " " := by
    intro same
    have letters := congrArg String.length same
    have positive : text.length ≠ 0 := by simpa using present
    simp only [String.length_append] at letters
    have one : " ".length = 1 := by decide
    omega
  rw [Line.rows, Line.closeRow, if_neg wide]

/-- A legible line is read back from its rows. -/
theorem readLine_rows {number : Nat} {items : List Item} (holdsSymbol : items.any Item.isSymbol = true)
    (alternate : Item.Alternate items) (legible : ∀ item ∈ items, item.Legible) :
    readLine ((Line.rows number items).map String.toList) = (number, items) := by
  rcases items with _ | ⟨item, rest⟩
  · cases holdsSymbol
  · cases item with
    | symbol mark name =>
        have later := readItems_laterRows true (by rintro other isFirst; cases isFirst; rfl)
          alternate legible
        have first : (toString number ++ " ").toList = (toString number).toList ++ ' ' :: [] := by simp
        rw [Line.rows, List.map_cons, first, readLine_cons, later]
        rfl
    | plain text =>
        have present : text ≠ "" := (legible _ List.mem_cons_self).1
        have restLegible : ∀ other ∈ rest, other.Legible := fun other member =>
          legible other (List.mem_cons_of_mem _ member)
        rcases rest with _ | ⟨next, rest⟩
        · cases holdsSymbol
        · cases next with
          | plain other => simp [Item.Alternate] at alternate
          | symbol mark name =>
              have later := readItems_laterRows true (by rintro other isFirst; cases isFirst; rfl)
                (List.IsChain.tail alternate) restLegible
              have first : (toString number ++ " " ++ text ++ " ").toList =
                  (toString number).toList ++ ' ' :: (text.toList ++ [' ']) := by simp
              rw [rows_plain number present, List.map_cons, first, readLine_cons]
              simp only [List.tail_cons] at later
              rw [later]
              simp

/-! ## The rows of an index -/

/-- A row that is neither empty nor broken. -/
def FullRow (row : Row) : Prop :=
  row ≠ [] ∧ '\n' ∉ row

theorem fullRow_closeRow {text : String} (full : FullRow text.toList) (following : List Item) :
    FullRow (Line.closeRow text following).toList := by
  rcases Line.closeRow_eq text following with closed | closed
  · rw [closed]
    exact full
  · rw [closed]
    refine ⟨by simp, ?_⟩
    simpa using full.2

theorem fullRow_row {item : Item} (legible : item.Legible) : FullRow (Line.row item).toList := by
  cases item with
  | symbol mark name =>
      rw [row_symbol]
      cases mark with
      | none =>
          rcases legible.2 rfl with ⟨first, rest, letters, _⟩
          have oneRow := legible.1
          refine ⟨by simp [Mark.renderOptional, letters], ?_⟩
          simpa [Mark.renderOptional] using oneRow
      | some mark =>
          rcases exists_sign mark with ⟨sign, isSign, noFeed⟩
          refine ⟨by simp [Mark.renderOptional, Mark.render], ?_⟩
          simpa [Mark.renderOptional, Mark.render, isSign] using ⟨noFeed.symm, legible.1⟩
  | plain text =>
      simp only [Line.row]
      split
      · exact ⟨by simpa using legible.1, legible.2⟩
      · exact ⟨by simp, by simpa using legible.2⟩

theorem fullRow_laterRows {items : List Item} (legible : ∀ item ∈ items, item.Legible) :
    ∀ row ∈ (Line.laterRows items).map String.toList, FullRow row := by
  induction items with
  | nil => simp [Line.laterRows]
  | cons item rest ih =>
      have later := ih fun other member => legible other (List.mem_cons_of_mem _ member)
      intro row member
      rw [Line.laterRows, List.map_cons] at member
      rcases List.mem_cons.mp member with rfl | inRest
      · exact fullRow_closeRow (fullRow_row (legible item List.mem_cons_self)) rest
      · exact later row inRest

theorem fullRow_number (number : Nat) (text : String) (oneRow : '\n' ∉ text.toList) :
    FullRow (toString number ++ text).toList ∧ (toString number ++ text).toList ≠ missing := by
  rcases Line.exists_digit number with ⟨digit, digits, letters, isDigit⟩
  refine ⟨⟨by simp, ?_⟩, ?_⟩
  · rw [String.toList_append, Line.toList_toString]
    intro broken
    rcases List.mem_append.mp broken with inNumber | inText
    · have feedIsDigit := Line.isDigit_of_mem inNumber
      cases feedIsDigit
    · exact oneRow inText
  · rw [String.toList_append, letters]
    intro same
    have isN : digit = 'N' := (List.cons.inj same).1
    rw [isN] at isDigit
    cases isDigit

/-- The rows of a legible line are full, and it starts with none that could be taken for a missing
line. -/
theorem exists_rows (number : Nat) {items : List Item} (holdsSymbol : items.any Item.isSymbol = true)
    (legible : ∀ item ∈ items, item.Legible) :
    ∃ first later, (Line.rows number items).map String.toList = first :: later ∧ first ≠ missing ∧
      ∀ row ∈ first :: later, FullRow row := by
  rcases items with _ | ⟨item, rest⟩
  · cases holdsSymbol
  · cases item with
    | symbol mark name =>
        have numbered := fullRow_number number " " (by decide)
        refine ⟨_, _, rfl, numbered.2, ?_⟩
        rintro row (_ | ⟨_, member⟩)
        · exact numbered.1
        · exact fullRow_laterRows legible row member
    | plain text =>
        have textLegible := legible _ List.mem_cons_self
        have restLegible : ∀ other ∈ rest, other.Legible := fun other member =>
          legible other (List.mem_cons_of_mem _ member)
        rcases Line.exists_rows_plain number text rest with ⟨space, oneRow, rows⟩
        have numbered := fullRow_number number (" " ++ text ++ space) (by
          simpa using ⟨textLegible.2, oneRow⟩)
        rw [rows, List.map_cons]
        refine ⟨_, _, rfl, numbered.2, ?_⟩
        rintro row (_ | ⟨_, member⟩)
        · exact numbered.1
        · exact fullRow_laterRows restLegible row member

/-- The rows of a text in which each row is ended. -/
def endRows (rows : List Row) : List Char :=
  rows.flatMap (· ++ ['\n'])

theorem endRows_append (first second : List Row) :
    endRows (first ++ second) = endRows first ++ endRows second := by
  simp [endRows]

/-- Ended rows are found again in front of any text. -/
theorem splitOn_endRows {rows : List Row} (oneRow : ∀ row ∈ rows, '\n' ∉ row) (rest : List Char) :
    (endRows rows ++ rest).splitOn '\n' = rows ++ rest.splitOn '\n' := by
  induction rows with
  | nil => rfl
  | cons row later ih =>
      have whole : endRows (row :: later) ++ rest = row ++ '\n' :: (endRows later ++ rest) := by
        simp [endRows]
      rw [whole, List.splitOn_append_cons_self_of_not_mem (oneRow row List.mem_cons_self),
        ih fun other member => oneRow other (List.mem_cons_of_mem _ member)]
      rfl

theorem toList_intercalate_endRows {rows : List String} (present : rows ≠ []) :
    (String.intercalate "\n" rows ++ "\n").toList = endRows (rows.map String.toList) := by
  induction rows with
  | nil => exact absurd rfl present
  | cons row later ih =>
      cases later with
      | nil => simp [endRows]
      | cons next later =>
          rw [String.intercalate_cons_cons, List.map_cons]
          have tail := ih (by simp)
          simp only [String.append_assoc, String.toList_append] at tail ⊢
          rw [tail]
          simp [endRows]

/-- The rows of a block go on to the next empty row. -/
theorem readRows_block {more : List Row} (full : ∀ row ∈ more, FullRow row) (rows rest : List Row) :
    readRows (.block rows) (more ++ [] :: rest) =
      (readRows .start rest).map fun found => (some (readLine (rows ++ more)) :: found.1, found.2) := by
  induction more generalizing rows with
  | nil => simp [readRows]
  | cons row later ih =>
      have present : row.isEmpty = false := by
        simpa using (full row List.mem_cons_self).1
      rw [List.cons_append, readRows, present]
      have goesOn := ih (fun other member => full other (List.mem_cons_of_mem _ member)) (rows ++ [row])
      simpa using goesOn

/-- A text that takes a reader from one place in an index to another, on whatever rows follow, and
adds something to what it finds there. -/
def Leads (text : List Char) (here there : Place)
    (find : List Block × List Record → List Block × List Record) : Prop :=
  ∃ rows, (∀ row ∈ rows, '\n' ∉ row) ∧ text = endRows rows ∧
    ∀ rest, readRows here (rows ++ rest) = (readRows there rest).map find

theorem Leads.nil (place : Place) : Leads [] place place id :=
  ⟨[], by simp, rfl, by simp⟩

theorem Leads.append {first second : List Char} {here between there : Place}
    {find findMore : List Block × List Record → List Block × List Record}
    (leads : Leads first here between find) (leadsOn : Leads second between there findMore) :
    Leads (first ++ second) here there (find ∘ findMore) := by
  rcases leads with ⟨rows, oneRow, rfl, read⟩
  rcases leadsOn with ⟨more, moreOneRow, rfl, readMore⟩
  refine ⟨rows ++ more, ?_, (endRows_append rows more).symm, ?_⟩
  · intro row member
    rcases List.mem_append.mp member with inFirst | inSecond
    · exact oneRow row inFirst
    · exact moreOneRow row inSecond
  · intro rest
    rw [List.append_assoc, read, readMore, Option.map_map]

/-- A single row leads where a reader goes from it. -/
theorem leads_row {row : Row} {here there : Place}
    {find : List Block × List Record → List Block × List Record} (oneRow : '\n' ∉ row)
    (read : ∀ rest, readRows here (row :: rest) = (readRows there rest).map find) :
    Leads (row ++ ['\n']) here there find := by
  refine ⟨[row], ?_, by simp [endRows], read⟩
  intro other member
  rw [List.mem_singleton.mp member]
  exact oneRow

/-- A legible line with a symbol leads from the start of its block to that of the next. -/
theorem leads_line {line : Line} (hasSymbol : line.hasSymbol = true) (legible : line.Legible) :
    Leads line.render.toList .start .start fun found =>
      (some (line.number, line.items) :: found.1, found.2) := by
  have holdsSymbol : line.items.any Item.isSymbol = true := legible.honest.symm.trans hasSymbol
  have read : readLine ((Line.rows line.number line.items).map String.toList) = _ :=
    readLine_rows holdsSymbol legible.alternate legible.items
  rcases exists_rows line.number holdsSymbol legible.items with
    ⟨first, later, rows, notMissing, full⟩
  rw [rows] at read
  refine ⟨first :: later ++ [[]], ?_, ?_, ?_⟩
  · intro row member
    rcases List.mem_append.mp member with inLine | isLast
    · exact (full row inLine).2
    · rw [List.mem_singleton.mp isLast]
      exact List.not_mem_nil
  · have present : Line.rows line.number line.items ≠ [] := by
      intro empty
      rw [empty] at rows
      cases rows
    have ended := toList_intercalate_endRows present
    rw [rows] at ended
    rw [endRows_append, ← ended, Line.render, if_pos hasSymbol]
    simp [endRows]
  · intro rest
    have firstPresent : first.isEmpty = false := by
      simpa using (full first List.mem_cons_self).1
    have onlyFirst : readRows .start (first :: (later ++ [] :: rest)) =
        readRows (.block [first]) (later ++ [] :: rest) := by
      rw [readRows, if_neg (by simp [firstPresent]), if_neg notMissing]
    have block :=
      readRows_block (fun row member => full row (List.mem_cons_of_mem _ member)) [first] rest
    rw [List.append_assoc, List.cons_append, List.singleton_append, onlyFirst, block]
    simp only [List.singleton_append, read]

end IndexFile

end CrossRef
