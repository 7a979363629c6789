import CrossRef.Text.Blank

/-!
# Rows of a text

How a text falls into rows, for files (a row ends at a line feed) and for display (a row ends at any
line end of Unicode), and how the line ends of a file are made uniform.
-/

namespace CrossRef.Text

/-- The text with every carriage return, alone or before a line feed, turned into a line feed. -/
def uniformNewlines : List Char → List Char
  | [] => []
  | '\r' :: '\n' :: rest => '\n' :: uniformNewlines rest
  | '\r' :: rest => '\n' :: uniformNewlines rest
  | char :: rest => char :: uniformNewlines rest

/-- The text with every pair of carriage return and line feed turned into a line feed. -/
def joinNewlinePairs : List Char → List Char
  | [] => []
  | '\r' :: '\n' :: rest => '\n' :: joinNewlinePairs rest
  | char :: rest => char :: joinNewlinePairs rest

/-- A text with its line feeds written as escapes. -/
def escapeNewlines (text : String) : String :=
  String.ofList (text.toList.flatMap fun char => if char = '\n' then ['\\', 'n'] else [char])

/-- Puts a character in front of the first row. -/
def consRow (char : Char) : List (List Char) → List (List Char)
  | [] => [[char]]
  | row :: rows => (char :: row) :: rows

/-- The rows of a text, each with the line feed that ends it. -/
def fileRows : List Char → List (List Char)
  | [] => []
  | '\n' :: rest => ['\n'] :: fileRows rest
  | char :: rest => consRow char (fileRows rest)

/-- Whether a character ends a row for display. -/
def endsRow (char : Char) : Bool :=
  let code := char.toNat
  (10 ≤ code && code ≤ 13) || (28 ≤ code && code ≤ 30) || code = 0x85 || code = 0x2028 || code = 0x2029

/-- The rows of a text for display, each with the line end that ends it; a carriage return before a
line feed is one end with it. -/
def displayRows : List Char → List (List Char)
  | [] => []
  | '\r' :: '\n' :: rest => ['\r', '\n'] :: displayRows rest
  | char :: rest => if endsRow char then [char] :: displayRows rest else consRow char (displayRows rest)

/-- The words of a row, each with the blanks that follow it; leading blanks are a word of their own. -/
def spacedWords : List Char → List (List Char)
  | [] => []
  | char :: rest =>
    match spacedWords rest with
    | [] => [[char]]
    | [] :: words => [char] :: words
    | (next :: word) :: words =>
      if isBlank char && !isBlank next then [char] :: (next :: word) :: words
      else (char :: next :: word) :: words

end CrossRef.Text
