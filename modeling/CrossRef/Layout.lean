import CrossRef.Element.Literal
import CrossRef.Text.Rows

/-!
# Layout of elements

An element is written on one row if it fits, and otherwise a list is written with one entry per row and
a long text is cut between words.  Rows are eighty characters wide.
-/

namespace CrossRef.Layout

/-- The width of a row. -/
def width : Nat := 80

def spaces (count : Nat) : String :=
  String.ofList (List.replicate count ' ')

/-- Whether a text fits behind an indentation, with some room left behind it. -/
def fits (text : String) (indent room : Nat) : Bool :=
  text.length + indent + room ≤ width

/-- Packs words into quoted pieces that fit; `current` is the piece being filled, and `room` is kept
free behind the last one. -/
def packWords (indent room : Nat) (current : List Char) : List (List Char) → List String
  | [] => if current.isEmpty then [] else [Text.quoted (String.ofList current)]
  | word :: rest =>
    let longer := current ++ word
    if fits (Text.quoted (String.ofList longer)) indent (if rest.isEmpty then room else 0) then
      packWords indent room longer rest
    else
      (if current.isEmpty then [] else [Text.quoted (String.ofList current)]) ++
        packWords indent room word rest

/-- The pieces of one row of a text. -/
def rowPieces (indent room : Nat) (row : List Char) : List String :=
  let whole := Text.quoted (String.ofList row)
  if fits whole indent room then [whole] else packWords indent room [] (Text.spacedWords row)

/-- The pieces of a text; only the last row has to leave room behind it. -/
def textPieces (indent room : Nat) : List (List Char) → List String
  | [] => []
  | [row] => rowPieces indent room row
  | row :: rest => rowPieces indent 0 row ++ textPieces indent room rest

/-- A text, cut into pieces if it does not fit. -/
def layoutText (indent room : Nat) (value : String) : String :=
  if value.isEmpty || fits (Text.quoted value) indent room then Text.quoted value
  else String.intercalate ("\n" ++ spaces indent) (textPieces indent room (Text.displayRows value.toList))

mutual

/-- An element behind an indentation, with room left behind it. -/
def layout (indent room : Nat) : Element → String
  | .list elements =>
    let whole := (Element.list elements).literal
    if fits whole indent room then whole else "[" ++ layoutEach (indent + 1) (room + 1) elements ++ "]"
  | .text value => layoutText indent room value
  | element => element.literal

/-- The entries of a list, one per row; only the last one has to leave more room than for a comma. -/
def layoutEach (indent room : Nat) : List Element → String
  | [] => ""
  | [element] => layout indent room element
  | element :: rest =>
    layout indent 1 element ++ ",\n" ++ spaces indent ++ layoutEach indent room rest

end

/-- An element on rows of its own. -/
def render (element : Element) : String :=
  layout 0 0 element ++ "\n"

end CrossRef.Layout
