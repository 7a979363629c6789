import CrossRef.Sample.Statement

/-!
# Sample modules

A sample module has any number of sample statements, one after the other; the names in it hold the
line they stand on.
-/

namespace CrossRef.Sample

/-- The statement in turn at a line, and the line behind it. -/
def turn (index : Nat) (line : Int) : Element × Int :=
  let named := fun (name : String) => name ++ toString line
  match index % 18 with
  | 0 => (assign (named "x") line, line + 1)
  | 1 => (chainAssign (named "a") (named "b") line, line + 1)
  | 2 => (augmentedAssign (named "c") line, line + 1)
  | 3 => (tupleAssign line, line + 1)
  | 4 => (subscriptAssign (named "d") line, line + 1)
  | 5 => (attributeAssign (named "o") "attr" line, line + 1)
  | 6 => (attributeSubscriptAssign (named "o") "attr" line, line + 1)
  | 7 => (globalDeclaration line, line + 1)
  | 8 => (importModules line, line + 1)
  | 9 => (importNames line, line + 1)
  | 10 => (classDefinition (named "C") line, line + 3)
  | 11 => (call (named "fn") line, line + 1)
  | 12 => (attributeCall "obj" (named "m") line, line + 1)
  | 13 => (keywordCall line, line + 1)
  | 14 => (decorated line, line + 6)
  | 15 => (function (named "g") line true false, line + 7)
  | 16 => (function (named "h") line false true, line + 4)
  | _ => (stringList line, line + 1)

/-- Statements in turn from a line on, and the line behind them. -/
def turns (index : Nat) (line : Int) : Nat → List Element × Int
  | 0 => ([], line)
  | count + 1 =>
    let (first, next) := turn index line
    let (rest, last) := turns (index + 1) next count
    (first :: rest, last)

/-- A module with the given number of statements. -/
def program (count : Nat) : Element :=
  let (statements, last) := turns 0 1 count
  tree 300 (statements ++ [newline last, leaf Kind.endMarker "" last])

end CrossRef.Sample
