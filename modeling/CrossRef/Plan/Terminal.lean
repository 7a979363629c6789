import CrossRef.Step
import CrossRef.Text.Rows

/-!
# Plans for terminals

A terminal goes on to its line and adds its text to it: as a symbol if it is a name, a string that holds
an identifier, or marked, and as plain text otherwise.
-/

namespace CrossRef

/-- The two sorts of quote around a string, each once or three times. -/
def quotes : List String := ["'", "\"", "'''", "\"\"\""]

def startsIdentifier (char : Char) : Bool :=
  char.isAlpha || char = '_'

def continuesIdentifier (char : Char) : Bool :=
  char.isAlphanum || char = '_'

/-- The opening quote, the identifier and the closing quote that a string consists of; the quotes need
not agree, and a line feed at the end does not count. -/
def quotedIdentifier? (text : String) : Option (String × String × String) :=
  let isQuote := fun char : Char => char = '\'' || char = '"'
  let chars := text.toList
  let opening := String.ofList (chars.takeWhile isQuote)
  let rest := chars.dropWhile isQuote
  let name := rest.takeWhile continuesIdentifier
  let closing := String.ofList <|
    match (rest.dropWhile continuesIdentifier).reverse with
    | '\n' :: before => before.reverse
    | _ => rest.dropWhile continuesIdentifier
  if quotes.contains opening && name.head?.any startsIdentifier && quotes.contains closing then
    some (opening, String.ofList name, closing)
  else none

namespace Plan

/-- Adds an item, if it could be made. -/
def addMade : Except Fault Item → Plan
  | .ok item => [.add item]
  | .error fault => [.fail fault]

/-- A string is plain text with its line feeds escaped. -/
def plainString : Element → Plan
  | .text text => addMade (Item.makePlain (.text (Text.escapeNewlines text)))
  | element => [.fail (.noAttribute element.sort "replace")]

/-- A string that holds an identifier gives a symbol between its quotes, if such symbols are wanted. -/
def string (settings : Settings) (text : Element) : Plan :=
  if settings.stringSymbols then
    match text with
    | .text value =>
      match quotedIdentifier? value with
      | some (opening, name, closing) =>
        [.add (.plain opening), .add (.symbol none name), .add (.plain closing)]
      | none => plainString text
    | _ => [.fail (.notSearchable text.sort)]
  else plainString text

/-- A marked terminal is a symbol and uses its mark up. -/
def markedSymbol (path : Path) (text : Element) (label : Label) : Plan :=
  .unmark path :: addMade (Item.makeSymbol text label)

/-- A name is a symbol, but a keyword only if it is marked. -/
def name (settings : Settings) (state : State) (path : Path) (text : Element) : Plan :=
  match state.labelAt? path with
  | some label => markedSymbol path text label
  | none =>
    if settings.grammar.isKeyword text then addMade (Item.makePlain text)
    else addMade (Item.makeSymbol text .absent)

/-- What the text of a terminal of the given kind adds to its line. -/
def token (settings : Settings) (state : State) (path : Path) (kind text : Element) : Plan :=
  if kind.isNumber Kind.newline then []
  else if kind.isNumber Kind.indent then [.indent]
  else if kind.isNumber Kind.string then string settings text
  else if kind.isNumber Kind.name then name settings state path text
  else
    match kind.isNumber Kind.dot, state.labelAt? path with
    | true, some label => markedSymbol path text label
    | _, _ => if kind.isNumber Kind.endMarker then [.finish] else addMade (Item.makePlain text)

/-- What a terminal on the given line makes a walk do.  A string does not start a new line, so that a
string over several lines stays with what precedes it. -/
def terminal (settings : Settings) (state : State) (path : Path) (node : Element) (number : Int) :
    Plan :=
  match node.kind, node.entry 1 with
  | .error fault, _ => [.fail fault]
  | _, .error fault => [.fail fault]
  | .ok kind, .ok text =>
    if kind.isNumber Kind.dedent then [.dedent]
    else
      match state.line with
      | none => [.fail (.noAttribute "NoneType" "lineno")]
      | some line =>
        (if number ≠ line.number && !kind.isNumber Kind.string then [.turn number] else []) ++
          token settings state path kind text

end Plan

end CrossRef
