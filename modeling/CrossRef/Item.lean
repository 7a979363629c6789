import CrossRef.Mark

/-!
# Items of a line

A line of an index alternates between symbols, which can be searched for, and plain text.
-/

namespace CrossRef

/-- A symbol or a piece of plain text. -/
inductive Item where
  | symbol (mark : Option Mark) (name : String)
  | plain (text : String)
  deriving DecidableEq, Repr

namespace Item

def isSymbol : Item → Bool
  | .symbol .. => true
  | .plain _ => false

/-- Whether an item marks the end of a function. -/
def isFunctionEnd : Item → Bool
  | .symbol (some .functionEnd) _ => true
  | _ => false

/-- The name of an item's sort in messages. -/
def sort : Item → String
  | .symbol .. => "Symbol"
  | .plain _ => "NonSymbol"

/-- Makes a symbol of a name and a label; only the end of a function may have an empty name. -/
def makeSymbol (name : Element) (label : Label) : Except Fault Item :=
  match name, label with
  | .text name, .known .functionEnd => .ok (.symbol (some .functionEnd) name)
  | .text name, label =>
    if name.isEmpty then .error .unnamedSymbol
    else
      match label.toMark with
      | .ok mark => .ok (.symbol mark name)
      | .error fault => .error fault
  | _, _ => .error .unnamedSymbol

/-- Makes plain text, which cannot be empty. -/
def makePlain : Element → Except Fault Item
  | .text text => if text.isEmpty then .error .emptyText else .ok (.plain text)
  | _ => .error .emptyText

/-- Joins an item to the one before it.  The names of symbols with the same mark are put together;
pieces of text are put together with a space. -/
def merge : Item → Item → Except Fault Item
  | .symbol mark name, .symbol next more =>
    if mark = next then .ok (.symbol mark (name ++ more)) else .error .marksDiffer
  | .symbol .., .plain _ => .error .notSymbol
  | .plain text, .plain more => .ok (.plain (text ++ " " ++ more))
  | .plain _, .symbol .. => .error .notPlainText

/-- How an item is written by itself. -/
def render : Item → String
  | .symbol mark name => Mark.renderOptional mark ++ name
  | .plain text => text

/-- How an item is shown to a reader. -/
def display (item : Item) : String :=
  "<" ++ item.sort ++ ":" ++ item.render ++ ">"

end Item

end CrossRef
