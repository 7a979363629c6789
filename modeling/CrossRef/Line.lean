import CrossRef.Item
import CrossRef.Text.Rows

/-!
# Lines

A line collects the items of one source line.  Neighbours of the same sort are merged as they come,
so that symbols and plain text alternate; the end of a function always stays an item of its own.
A line without a symbol leaves no trace in the index.
-/

namespace CrossRef

/-- The items of one source line, in order. -/
structure Line where
  number : Nat
  items : List Item := []
  hasSymbol : Bool := false
  deriving DecidableEq, Repr

namespace Line

/-- An empty line with the number that an element stands for. -/
def start : Element → Except Fault Line
  | .int number => if 0 < number then .ok { number := number.toNat } else .error .badLineNumber
  | _ => .error (.undefinedName "long")

/-- Puts an item behind the last one. -/
def push (line : Line) (item : Item) : Line :=
  { line with items := line.items ++ [item], hasSymbol := line.hasSymbol || item.isSymbol }

@[simp]
theorem items_push (line : Line) (item : Item) : (line.push item).items = line.items ++ [item] := rfl

@[simp]
theorem number_push (line : Line) (item : Item) : (line.push item).number = line.number := rfl

@[simp]
theorem hasSymbol_push (line : Line) (item : Item) :
    (line.push item).hasSymbol = (line.hasSymbol || item.isSymbol) := rfl

/-- Puts an item in the place of the last one. -/
def replaceLast (line : Line) (item : Item) : Line :=
  { line with items := line.items.dropLast ++ [item] }

@[simp]
theorem items_replaceLast (line : Line) (item : Item) :
    (line.replaceLast item).items = line.items.dropLast ++ [item] := rfl

@[simp]
theorem number_replaceLast (line : Line) (item : Item) :
    (line.replaceLast item).number = line.number := rfl

@[simp]
theorem hasSymbol_replaceLast (line : Line) (item : Item) :
    (line.replaceLast item).hasSymbol = line.hasSymbol := rfl

/-- The space that keeps the end of a function apart from a symbol. -/
def separator : Item := .plain " "

/-- Adds an item at the end of a line. -/
def add (line : Line) (item : Item) : Except Fault Line :=
  match line.items.getLast? with
  | none => .ok (line.push item)
  | some last =>
    if item.isFunctionEnd then
      if last.isSymbol then .ok ((line.push separator).push item) else .ok (line.push item)
    else if last.isSymbol = item.isSymbol then
      match last.merge item with
      | .ok merged => .ok (line.replaceLast merged)
      | .error fault => .error fault
    else .ok (line.push item)

/-- The row of an item that is not the first of its line: plain text is set off by a space unless it
is one. -/
def row : Item → String
  | .symbol mark name => (Item.symbol mark name).render
  | .plain text => if text = " " then text else " " ++ text

/-- A row with the space that a following symbol asks for. -/
def closeRow (text : String) (following : List Item) : String :=
  match following with
  | .symbol .. :: _ => if text = " " then text else text ++ " "
  | _ => text

/-- The rows of the items behind the first one. -/
def laterRows : List Item → List String
  | [] => []
  | item :: following => closeRow (row item) following :: laterRows following

/-- The rows of a line.  The line number stands on a row of its own in front of a symbol, and on the
same row in front of plain text. -/
def rows (number : Nat) : List Item → List String
  | [] => []
  | .symbol mark name :: following =>
    (toString number ++ " ") :: laterRows (.symbol mark name :: following)
  | .plain text :: following =>
    closeRow (toString number ++ " " ++ text) following :: laterRows following

/-- The block of an index that a line gives: its rows and an empty row, or nothing without a symbol. -/
def render (line : Line) : String :=
  if line.hasSymbol then String.intercalate "\n" (rows line.number line.items) ++ "\n\n" else ""

/-- How a line is shown to a reader, with its line feeds as escapes. -/
def display (line : Line) : String :=
  "<Line:" ++ Text.escapeNewlines line.render ++ ">"

end Line

end CrossRef
