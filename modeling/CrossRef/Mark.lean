import CrossRef.Fault

/-!
# Marks

A mark is the sign in front of a symbol in an index that says what the symbol is for.
-/

namespace CrossRef

/-- What a symbol is for. -/
inductive Mark where
  | file
  | definition
  | call
  /-- The end of a function; its symbol has no name. -/
  | functionEnd
  /-- A module that is imported. -/
  | inclusion
  | assignment
  | classDefinition
  | globalName
  | localName
  deriving DecidableEq, Repr

namespace Mark

/-- The sign of a mark. -/
def sign : Mark → String
  | .file => "@"
  | .definition => "$"
  | .call => "`"
  | .functionEnd => "\x7d"
  | .inclusion => "~"
  | .assignment => "="
  | .classDefinition => "c"
  | .globalName => "g"
  | .localName => "l"

def all : List Mark :=
  [.file, .definition, .call, .functionEnd, .inclusion, .assignment, .classDefinition, .globalName,
   .localName]

/-- The mark with the given sign. -/
def ofSign? (text : String) : Option Mark :=
  all.find? fun mark => mark.sign = text

/-- How a mark is written: a tab and its sign. -/
def render (mark : Mark) : String :=
  "\t" ++ mark.sign

/-- How the presence or absence of a mark is written. -/
def renderOptional : Option Mark → String
  | some mark => mark.render
  | none => ""

/-- How the presence or absence of a mark is shown to a reader, with the tab as an escape. -/
def display : Option Mark → String
  | some mark => "<Mark:\\t" ++ mark.sign ++ ">"
  | none => "<Mark:>"

end Mark

/-- What is noted down for a terminal as its mark.  Only the indexer's own notes are marks; a caller
may note anything, and it is checked when a symbol is made of it. -/
inductive Label where
  | known (mark : Mark)
  | other (value : Element)
  deriving Repr

namespace Label

/-- The label of a symbol that holds no mark. -/
def absent : Label := .other .null

/-- The label that an element stands for. -/
def ofElement : Element → Label
  | .text value =>
    match Mark.ofSign? value with
    | some mark => .known mark
    | none => .other (.text value)
  | element => .other element

/-- The element that stands for a label. -/
def toElement : Label → Element
  | .known mark => .text mark.sign
  | .other value => value

/-- The mark that a label gives to a symbol, if it gives one. -/
def toMark : Label → Except Fault (Option Mark)
  | .known mark => .ok (some mark)
  | .other value => if value.isPresent then .error (.invalidMark value) else .ok none

end Label

end CrossRef
