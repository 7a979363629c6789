import CrossRef.Grammar

/-!
# Sample statements

Trees of small statements that exercise every construct a walk looks at, in a grammar of their own
that has only these constructs.
-/

namespace CrossRef.Sample

/-- The names of the constructs of the samples. -/
def constructNames : KindNames :=
  [(300, "file_input"), (301, "stmt"), (302, "suite"), (303, "subscriptlist"), (304, "global_stmt"),
   (305, "funcdef"), (306, "decorators"), (307, "decorated"), (308, "decorator"), (309, "dotted_name"),
   (310, "import_from"), (311, "import_name"), (312, "dotted_as_names"), (313, "dotted_as_name"),
   (314, "expr_stmt"), (315, "augassign"), (316, "testlist"), (317, "yield_expr"), (318, "test"),
   (319, "classdef"), (320, "testlist_star_expr"), (321, "star_expr"), (322, "testlist_comp"),
   (323, "power"), (324, "atom"), (325, "trailer")]

/-- The grammar of the samples. -/
def grammar : Grammar :=
  { Grammar.version3 with
    names := Kind.terminalNames ++ constructNames
    globalStatement := 304
    functionDefinition := 305
    decorators := 306
    decorated := 307
    decorator := 308
    dottedName := 309
    importFrom := 310
    importName := 311
    importedNames := 312
    expressionStatement := 314
    augmentedAssignment := 315
    testList := 316
    yieldExpression := 317
    test := 318
    classDefinition := 319
    power := 323
    atom := 324
    trailer := 325
    targetList := 320
    targets := [318, 321]
    bracketed := [322] }

/-- A terminal. -/
def leaf (kind : Nat) (text : String) (line : Int) : Element :=
  .node [.int kind, .text text, .int line]

/-- A construct. -/
def tree (kind : Nat) (children : List Element) : Element :=
  .node (.int kind :: children)

def word (text : String) (line : Int) : Element := leaf Kind.name text line

def digit (text : String) (line : Int) : Element := leaf 2 text line

def operator (text : String) (line : Int) : Element := leaf 54 text line

def colon (line : Int) : Element := leaf 11 ":" line

def comma (line : Int) : Element := leaf Kind.comma "," line

def equals (line : Int) : Element := leaf Kind.equal "=" line

def dot (line : Int) : Element := leaf Kind.dot "." line

def newline (line : Int) : Element := leaf Kind.newline "" line

/-- A primary: an atom around a terminal, and trailers. -/
def primary (inner : Element) (trailers : List Element) : Element :=
  tree 323 (tree 324 [inner] :: trailers)

/-- An expression around a primary with trailers. -/
def trailed (inner : Element) (trailers : List Element) : Element :=
  tree 318 [primary inner trailers]

/-- An expression around a primary that is only a terminal. -/
def expression (inner : Element) : Element := trailed inner []

/-- A list on the left of an assignment, or what stands alone. -/
def targets (members : List Element) : Element := tree 320 members

def testList (members : List Element) : Element := tree 316 members

/-- A member that takes the rest. -/
def starred (name : String) (line : Int) : Element :=
  tree 321 [operator "*" line, primary (word name line) []]

def callTrailer (line : Int) : Element :=
  tree 325 [leaf Kind.leftParenthesis "(" line, leaf Kind.rightParenthesis ")" line]

def attributeTrailer (name : String) (line : Int) : Element :=
  tree 325 [dot line, word name line]

def subscriptTrailer (line : Int) : Element :=
  tree 325
    [leaf Kind.leftBracket "[" line, tree 303 [expression (digit "0" line)],
     leaf Kind.rightBracket "]" line]

/-- A statement ends at a line. -/
def statement (inner : Element) (last : Int) : Element :=
  tree 301 [inner, newline last]

/-- An expression statement on one line. -/
def simple (parts : List Element) (line : Int) : Element :=
  statement (tree 314 parts) line

/-- An assignment of a number to one target. -/
def assignTo (target : Element) (line : Int) : Element :=
  simple [targets [target], equals line, targets [expression (digit "1" line)]] line

def assign (name : String) (line : Int) : Element :=
  assignTo (expression (word name line)) line

def chainAssign (first second : String) (line : Int) : Element :=
  simple
    [targets
       [expression (word first line), comma line, starred "rest" line,
        testList [expression (digit "0" line)]],
     equals line,
     tree 317 [word "yield" line, expression (digit "1" line)],
     equals line,
     targets [expression (word second line)]]
    line

def augmentedAssign (name : String) (line : Int) : Element :=
  simple
    [targets [expression (word name line)], tree 315 [operator "+=" line],
     testList [expression (digit "1" line)]]
    line

def subscriptAssign (name : String) (line : Int) : Element :=
  assignTo (trailed (word name line) [subscriptTrailer line]) line

def attributeAssign (name field : String) (line : Int) : Element :=
  assignTo (trailed (word name line) [attributeTrailer field line]) line

def attributeSubscriptAssign (name field : String) (line : Int) : Element :=
  assignTo
    (trailed (word name line) [attributeTrailer field line, subscriptTrailer line]) line

/-- An assignment to a list of targets in parentheses. -/
def tupleAssign (line : Int) : Element :=
  let members :=
    tree 322
      [expression (word "ta" line), comma line, expression (word "tb" line), comma line,
       starred "tc" line]
  let atom :=
    tree 324 [leaf Kind.leftParenthesis "(" line, members, leaf Kind.rightParenthesis ")" line]
  assignTo (tree 318 [tree 323 [atom]]) line

def globalDeclaration (line : Int) : Element :=
  statement (tree 304 [word "global" line, word "gx" line, comma line, word "gy" line]) line

def importModules (line : Int) : Element :=
  statement
    (tree 311
      [word "import" line,
       tree 312
         [tree 313
            [tree 309 [word "os" line, dot line, word "path" line], word "as" line, word "p" line],
          comma line,
          tree 313 [tree 309 [word "sys" line]]]])
    line

def importNames (line : Int) : Element :=
  statement
    (tree 310
      [word "from" line, dot line, leaf Kind.ellipsis "..." line,
       tree 309 [word "pkg" line, dot line, word "sub" line], word "import" line, word "thing" line])
    line

/-- An indented block: it starts behind a line and its last line is followed by a step back. -/
def block (line : Int) (statements : List Element) (last : Int) : Element :=
  tree 302
    ([newline line, leaf Kind.indent "" (line + 1)] ++ statements ++ [leaf Kind.dedent "" last])

/-- A block that does nothing. -/
def emptyBlock (line : Int) : Element :=
  block line [tree 301 [word "pass" (line + 1), newline (line + 1)]] (line + 2)

def classDefinition (name : String) (line : Int) : Element :=
  statement (tree 319 [word "class" line, word name line, colon line, emptyBlock line]) (line + 2)

def call (name : String) (line : Int) : Element :=
  simple [targets [trailed (word name line) [callTrailer line]]] line

def attributeCall (name field : String) (line : Int) : Element :=
  simple
    [targets [trailed (word name line) [attributeTrailer field line, callTrailer line]]] line

/-- A call of a name that is a keyword in some versions. -/
def keywordCall (line : Int) : Element := call "print" line

def decorator (name : List Element) (line : Int) : Element :=
  tree 308 [leaf Kind.atSign "@" line, tree 309 name, newline line]

/-- A function with three decorators. -/
def decorated (line : Int) : Element :=
  let decorators :=
    tree 306
      [decorator [word "mydec" line] line,
       decorator [word "a" (line + 1), dot (line + 1), word "b" (line + 1)] (line + 1),
       decorator [word "property" (line + 2)] (line + 2)]
  let body :=
    tree 305 [word "def" (line + 3), word "f" (line + 3), colon (line + 3), emptyBlock (line + 3)]
  statement (tree 307 [decorators, body]) (line + 5)

/-- Strings, of which one holds an identifier and one a line feed. -/
def stringList (line : Int) : Element :=
  simple
    [targets
      [expression (leaf Kind.string "\"ident\"" line), comma line,
       expression (leaf Kind.string "\"a\nb\"" line)]]
    line

/-- A function, perhaps with another one inside and perhaps with decorators among its parts. -/
def function (name : String) (line : Int) (nested decorators : Bool) : Element :=
  let first := line + (if nested then 4 else 1)
  let inner :=
    if nested then
      [statement
        (tree 305 [word "def" (line + 1), word "inner" (line + 1), colon (line + 1), emptyBlock (line + 1)])
        (line + 3)]
    else []
  let body :=
    block line (inner ++ [globalDeclaration first, call "helper" (first + 1)]) (first + 2)
  let front := if decorators then [tree 306 [decorator [word "dec" line] line]] else []
  statement (tree 305 (front ++ [word "def" line, word name line, colon line, body])) (first + 2)

end CrossRef.Sample
