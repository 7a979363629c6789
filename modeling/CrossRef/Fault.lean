import CrossRef.Element.Literal
import CrossRef.Storage.Errno

/-!
# Faults

Everything that can stop the indexing of a tree, a file or a command line, by cause, and the sentence
that reports it.
-/

namespace CrossRef

/-- The cause of a failure. -/
inductive Fault where
  /-- A tree does not have the shape its kinds promise. -/
  | misshapen
  | unmarkable (allowed : List String) (found : Element)
  | notTest (kind : String)
  | invalidMark (mark : Element)
  | unnamedSymbol
  | emptyText
  | badLineNumber
  | marksDiffer
  | notSymbol
  | notPlainText
  | notItem
  /-- The reader of source texts gave up on an expectation of its own. -/
  | readerGaveUp (sentence : String)
  | outOfRange (sort : String)
  | notSubscriptable (sort : String)
  | unsized (sort : String)
  | unordered (sort : String)
  | notNumeric (sort : String)
  | unhashable (sort : String)
  | unchangeable (sort : String)
  | notSearchable (sort : String)
  | noSum (operator left right : String)
  | missingArgument (owner argument : String)
  | notTextAt (position : Nat) (sort : String)
  | badInteger (text : String)
  | notANumber
  | infiniteNumber
  | badText (sentence : String)
  | undefinedName (name : String)
  | noAttribute (sort name : String)
  | noMember (library name : String)
  | unknownAttribute (name : String)
  | unknownKind (kind : Element)
  | outOfMemory (sentence : String)
  | storage (errno : Storage.Errno) (path : Option String)
  /-- A source text does not follow the grammar; `file` is the name it was read under. -/
  | badSource (sentence : String) (file : String) (line : Option Int)
  deriving Repr, Inhabited

namespace Fault

/-- The families into which faults fall. -/
inductive Family where
  | expectation
  | position
  | sort
  | value
  | overflow
  | name
  | attribute
  | key
  | memory
  | storage
  | source
  deriving DecidableEq, Repr

def family : Fault → Family
  | .misshapen | .unmarkable .. | .notTest _ | .invalidMark _ | .unnamedSymbol | .emptyText
  | .badLineNumber | .marksDiffer | .notSymbol | .notPlainText | .notItem | .readerGaveUp _ =>
    .expectation
  | .outOfRange _ => .position
  | .notSubscriptable _ | .unsized _ | .unordered _ | .notNumeric _ | .unhashable _ | .unchangeable _
  | .notSearchable _ | .noSum .. | .missingArgument .. | .notTextAt .. => .sort
  | .badInteger _ | .notANumber | .badText _ => .value
  | .infiniteNumber => .overflow
  | .undefinedName _ => .name
  | .noAttribute .. | .noMember .. | .unknownAttribute _ => .attribute
  | .unknownKind _ => .key
  | .outOfMemory _ => .memory
  | .storage .. => .storage
  | .badSource .. => .source

/-- Whether a fault condemns a single source file and lets the run go on with the next one. -/
def condemnsSource (fault : Fault) : Bool :=
  fault.family = .expectation || fault.family = .source

/-- The part of a path behind its last slash. -/
def lastPart (path : String) : String :=
  String.ofList (path.toList.reverse.takeWhile (· ≠ '/')).reverse

/-- The sentence that reports a fault. -/
def message : Fault → String
  | .misshapen => ""
  | .unmarkable allowed found =>
    "Expected one of " ++ (Element.list (allowed.map .text)).literal ++ ", found " ++ found.shown
  | .notTest kind => kind ++ " is not symbol.test"
  | .invalidMark mark => "Not a valid mark (" ++ mark.shown ++ ")"
  | .unnamedSymbol => "Must have an actual symbol name as a string (unless marking function end)."
  | .emptyText => "Must have an actual string."
  | .badLineNumber => "Requires a positive, non-zero integer for a line number"
  | .marksDiffer => "Symbols must be marked the same."
  | .notSymbol => "Must have another Symbol object to concatenate."
  | .notPlainText => "Must have another NonSymbol object to concatenate."
  | .notItem => "Can only add Symbol or NonSymbol objects"
  | .readerGaveUp sentence | .badText sentence | .outOfMemory sentence => sentence
  | .outOfRange "str" => "string index out of range"
  | .outOfRange sort => sort ++ " index out of range"
  | .notSubscriptable sort => "'" ++ sort ++ "' object is not subscriptable"
  | .unsized sort => "object of type '" ++ sort ++ "' has no len()"
  | .unordered sort => "'>=' not supported between instances of '" ++ sort ++ "' and 'int'"
  | .notNumeric sort =>
    "int() argument must be a string, a bytes-like object or a real number, not '" ++ sort ++ "'"
  | .unhashable sort => "unhashable type: '" ++ sort ++ "'"
  | .unchangeable sort => "'" ++ sort ++ "' object does not support item assignment"
  | .notSearchable sort => "expected string or bytes-like object, got '" ++ sort ++ "'"
  | .noSum operator left right =>
    "unsupported operand type(s) for " ++ operator ++ ": '" ++ left ++ "' and '" ++ right ++ "'"
  | .missingArgument owner argument =>
    owner ++ ".__init__() missing 1 required positional argument: '" ++ argument ++ "'"
  | .notTextAt position sort =>
    "sequence item " ++ toString position ++ ": expected str instance, " ++ sort ++ " found"
  | .badInteger text =>
    "invalid literal for int() with base 10: " ++ String.ofList ((Text.quoted text).toList.take 200)
  | .notANumber => "cannot convert float NaN to integer"
  | .infiniteNumber => "cannot convert float infinity to integer"
  | .undefinedName name => "name '" ++ name ++ "' is not defined"
  | .noAttribute sort name => "'" ++ sort ++ "' object has no attribute '" ++ name ++ "'"
  | .noMember library name => "module '" ++ library ++ "' has no attribute '" ++ name ++ "'"
  | .unknownAttribute name => name
  | .unknownKind kind => kind.literal
  | .storage errno none => "[Errno " ++ toString errno.number ++ "] " ++ errno.sentence
  | .storage errno (some path) =>
    "[Errno " ++ toString errno.number ++ "] " ++ errno.sentence ++ ": " ++ Text.quoted path
  | .badSource sentence file none => sentence ++ " (" ++ lastPart file ++ ")"
  | .badSource sentence file (some line) =>
    sentence ++ " (" ++ lastPart file ++ ", line " ++ toString line ++ ")"

end Fault

end CrossRef
