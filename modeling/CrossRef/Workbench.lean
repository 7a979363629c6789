import CrossRef.Line

/-!
# Workbench

Marks, items and lines as objects that can be shared.  A line holds the very items that were added to
it, so joining a symbol to the last item of a line changes that item everywhere it occurs.  A workbench
keeps the objects; a handle stands for one of them.
-/

namespace CrossRef

namespace Workbench

/-- Stands for an object of a workbench. -/
abbrev Handle := Nat

/-- What an object is at present. -/
inductive Object where
  | mark (mark : Option Mark)
  | item (item : Item)
  | line (number : Nat) (contents : List Handle) (hasSymbol : Bool)
  deriving Repr

/-- What an operation works on or gives. -/
inductive Datum where
  | plain (element : Element)
  | object (handle : Handle)
  /-- The items of a line. -/
  | contents (handle : Handle)
  /-- The answer of an operation that exists but is not carried out. -/
  | notImplemented
  deriving Repr

end Workbench

/-- Objects, by handle. -/
structure Workbench where
  objects : Array Workbench.Object := #[]
  deriving Repr

namespace Workbench

/-- What an operation on a workbench comes to. -/
structure Outcome where
  workbench : Workbench
  result : Except Fault Datum
  /-- What was printed on the way. -/
  printed : String := ""

/-- The object that a handle stands for. -/
def get (workbench : Workbench) (handle : Handle) : Object :=
  (workbench.objects[handle]?).getD (.mark none)

def item? (workbench : Workbench) (handle : Handle) : Option Item :=
  match workbench.get handle with
  | .item item => some item
  | _ => none

/-- The items that a line holds at present. -/
def itemsOf (workbench : Workbench) (contents : List Handle) : List Item :=
  contents.filterMap workbench.item?

/-- A line as it is at present. -/
def lineOf (workbench : Workbench) (number : Nat) (contents : List Handle) (hasSymbol : Bool) : Line :=
  { number := number, items := workbench.itemsOf contents, hasSymbol := hasSymbol }

/-- A new object and its handle. -/
def insert (workbench : Workbench) (object : Object) : Workbench × Handle :=
  (⟨workbench.objects.push object⟩, workbench.objects.size)

def set (workbench : Workbench) (handle : Handle) (object : Object) : Workbench :=
  ⟨workbench.objects.setIfInBounds handle object⟩

namespace Object

/-- The name of an object's sort in messages. -/
def sort : Object → String
  | .mark _ => "Mark"
  | .item found => found.sort
  | .line .. => "Line"

end Object

/-- The name of the sort of a datum in messages. -/
def sortOf (workbench : Workbench) : Datum → String
  | .plain element => element.sort
  | .object handle => (workbench.get handle).sort
  | .contents _ => "list"
  | .notImplemented => "NotImplementedType"

/-- The text of an object. -/
def textOf (workbench : Workbench) : Object → String
  | .mark mark => Mark.renderOptional mark
  | .item item => item.render
  | .line number contents hasSymbol => (workbench.lineOf number contents hasSymbol).render

/-- How an object is shown to a reader. -/
def display (workbench : Workbench) : Object → String
  | .mark mark => Mark.display mark
  | .item item => item.display
  | .line number contents hasSymbol => (workbench.lineOf number contents hasSymbol).display

/-- The text of the items of a line. -/
def displayContents (workbench : Workbench) (handle : Handle) : String :=
  match workbench.get handle with
  | .line _ contents _ =>
    "[" ++ String.intercalate ", " (contents.map fun entry => workbench.display (workbench.get entry)) ++ "]"
  | _ => "[]"

/-- The text of a datum inside a sentence. -/
def shown (workbench : Workbench) : Datum → String
  | .plain element => element.shown
  | .object handle => workbench.textOf (workbench.get handle)
  | .contents handle => workbench.displayContents handle
  | .notImplemented => "NotImplemented"

/-- Puts a new object on the workbench, if it could be made. -/
def place (workbench : Workbench) : Except Fault Object → Outcome
  | .ok object =>
    let (next, handle) := workbench.insert object
    { workbench := next, result := .ok (.object handle) }
  | .error fault => { workbench := workbench, result := .error fault }

def fails (workbench : Workbench) (fault : Fault) : Outcome :=
  { workbench := workbench, result := .error fault }

def gives (workbench : Workbench) (datum : Datum) : Outcome :=
  { workbench := workbench, result := .ok datum }

/-- The attribute that holds the sign of a mark, which only marks have. -/
def signAttribute : String := "_Mark__mark"

/-- The mark that a datum stands for; a mark itself stands for none, since it cannot be compared with
the signs. -/
def markOf (workbench : Workbench) (datum : Datum) : Except Fault (Option Mark) :=
  match datum with
  | .plain element => (Label.ofElement element).toMark
  | .object handle =>
    match workbench.get handle with
    | .mark _ => .error (.noAttribute "str" signAttribute)
    | object => .error (.invalidMark (.text (workbench.textOf object)))
  | other => .error (.invalidMark (.text (workbench.shown other)))

def makeMark (workbench : Workbench) (mark : Datum) : Outcome :=
  workbench.place ((workbench.markOf mark).map .mark)

/-- Whether a datum is a mark. -/
def isMark (workbench : Workbench) : Datum → Bool
  | .object handle =>
    match workbench.get handle with
    | .mark _ => true
    | _ => false
  | _ => false

/-- A symbol, for which a name must be given. -/
def makeSymbol (workbench : Workbench) (name : Option Datum) (mark : Datum) : Outcome :=
  workbench.place <|
    match name with
    | none => .error (.missingArgument "Symbol" "name")
    | some name =>
      if workbench.isMark mark then .error (.noAttribute "str" signAttribute)
      else
        match name, mark with
        | .plain name, .plain mark => (Item.makeSymbol name (Label.ofElement mark)).map .item
        | .plain name, mark =>
          match Item.makeSymbol name .absent, workbench.markOf mark with
          | .error fault, _ => .error fault
          | _, .error fault => .error fault
          | .ok item, .ok _ => .ok (.item item)
        | _, _ => .error .unnamedSymbol

/-- Plain text, which must be given. -/
def makePlain (workbench : Workbench) (text : Option Datum) : Outcome :=
  workbench.place <|
    match text with
    | none => .error (.missingArgument "NonSymbol" "val")
    | some (.plain text) => (Item.makePlain text).map .item
    | some _ => .error .emptyText

/-- An empty line, for which a number must be given. -/
def makeLine (workbench : Workbench) (number : Option Datum) : Outcome :=
  workbench.place <|
    match number with
    | none => .error (.missingArgument "Line" "num")
    | some (.plain number) => (Line.start number).map fun line => .line line.number [] line.hasSymbol
    | some _ => .error (.undefinedName "long")

/-- Adds an item to a line.  The line itself tells what becomes of its items: the last one is joined
with the new one, or the new one follows, perhaps behind a separator. -/
def addToLine (workbench : Workbench) (handle : Handle) (number : Nat) (contents : List Handle)
    (hasSymbol : Bool) (entry : Handle) (item : Item) : Outcome :=
  match (workbench.lineOf number contents hasSymbol).add item with
  | .error fault => workbench.fails fault
  | .ok line =>
    match line.items.length - contents.length, contents.getLast?, line.items.getLast? with
    | 0, some last, some joined => (workbench.set last (.item joined)).gives (.object handle)
    | 2, _, _ =>
      let (next, separator) := workbench.insert (.item Line.separator)
      (next.set handle (.line number (contents ++ [separator, entry]) line.hasSymbol)).gives
        (.object handle)
    | _, _, _ =>
      (workbench.set handle (.line number (contents ++ [entry]) line.hasSymbol)).gives (.object handle)

/-- Adds a datum to an object and gives that object; `operator` is the sign of the addition. -/
def add (workbench : Workbench) (operator : String) (handle : Handle) (datum : Datum) : Outcome :=
  let other : Option (Handle × Item) := match datum with
    | .object entry => (workbench.item? entry).map fun item => (entry, item)
    | _ => none
  match workbench.get handle, other with
  | .mark _, _ => workbench.fails (.noSum operator "Mark" (workbench.sortOf datum))
  | .item item, some (_, next) =>
    match item.merge next with
    | .ok joined => (workbench.set handle (.item joined)).gives (.object handle)
    | .error fault => workbench.fails fault
  | .item item, none =>
    workbench.fails (if item.isSymbol then .notSymbol else .notPlainText)
  | .line number contents hasSymbol, some (entry, item) =>
    workbench.addToLine handle number contents hasSymbol entry item
  | .line .., none => workbench.fails .notItem

/-- What a symbol prints when it is asked for an attribute that it does not have. -/
def missingAttribute (name : String) : String :=
  "Symbol(): does not have attribute <" ++ name ++ ">\n"

/-- An attribute that an object does not have; a symbol says so in print too. -/
def lacks (workbench : Workbench) (object : Object) (name : String) : Outcome :=
  match object with
  | .item (.symbol ..) =>
    { workbench := workbench
      result := .error (.unknownAttribute name)
      printed := missingAttribute name }
  | .item (.plain _) => workbench.fails (.noAttribute "NonSymbol" name)
  | _ => workbench.fails (.unknownAttribute name)

def truth (value : Bool) : Datum := .plain (.bool value)

def sign (mark : Option Mark) : Datum := .plain (.text ((mark.map Mark.sign).getD ""))

/-- Compares a mark with a datum, which must be a mark. -/
def compareMark (workbench : Workbench) (mark : Option Mark) (datum : Datum)
    (answer : Bool → Bool) : Outcome :=
  match datum with
  | .object handle =>
    match workbench.get handle with
    | .mark other => workbench.gives (truth (answer (mark = other)))
    | object => workbench.lacks object signAttribute
  | other => workbench.fails (.noAttribute (workbench.sortOf other) signAttribute)

/-- Compares an object with a datum: marks by their sign, other objects by identity; a mark on either
side asks the other side for its sign. -/
def compare (workbench : Workbench) (handle : Handle) (datum : Datum) (answer : Bool → Bool) :
    Outcome :=
  match workbench.get handle, datum with
  | .mark mark, datum => workbench.compareMark mark datum answer
  | object, .object other =>
    match workbench.get other with
    | .mark _ => workbench.lacks object signAttribute
    | _ => workbench.gives (truth (answer (handle = other)))
  | _, _ => workbench.gives (truth (answer false))

/-- Whether a symbol holds the given mark. -/
def hasMark (workbench : Workbench) (handle : Handle) (mark : Datum) : Outcome :=
  match workbench.get handle with
  | .item (.symbol own _) => workbench.compareMark own mark id
  | object => workbench.lacks object "hasMark"

/-- The parts of an object by the names under which they can be looked at. -/
def attributes (object : Object) (handle : Handle) : List (String × Datum) :=
  match object with
  | .mark mark => [("_test_mark", sign mark), (signAttribute, sign mark)]
  | .item (.symbol mark name) =>
    [("_test_mark", sign mark), ("_test_name", .plain (.text name)), ("_Symbol__name", .plain (.text name))]
  | .item (.plain text) => [("_NonSymbol__text", .plain (.text text))]
  | .line number _ hasSymbol =>
    [("lineno", .plain (.int number)),
     ("_test_contents", .contents handle), ("_Line__contents", .contents handle),
     ("_test_hasSymbol", truth hasSymbol), ("_Line__hasSymbol", truth hasSymbol)]

/-- Looks at a part of an object. -/
def lookAt (workbench : Workbench) (handle : Handle) (name : String) : Outcome :=
  let object := workbench.get handle
  match (attributes object handle).lookup name, object with
  | some datum, _ => workbench.gives datum
  | none, .item (.symbol mark _) =>
    if name = "_Symbol__mark" then workbench.place (.ok (.mark mark)) else workbench.lacks object name
  | none, _ => workbench.lacks object name

/-- Asks an object to make itself and another datum alike, which symbols and lines decline. -/
def coerce (workbench : Workbench) (handle : Handle) : Outcome :=
  match workbench.get handle with
  | .item (.symbol ..) | .line .. => workbench.gives .notImplemented
  | object => workbench.lacks object "__coerce__"

/-- Asks an object whether it counts as present, which only symbols can be asked. -/
def nonzero (workbench : Workbench) (handle : Handle) : Outcome :=
  match workbench.get handle with
  | .item (.symbol ..) => workbench.gives (truth true)
  | object => workbench.lacks object "__nonzero__"

end Workbench

end CrossRef
