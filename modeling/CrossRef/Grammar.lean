import CrossRef.Element.Access
import CrossRef.Kind

/-!
# Grammars

What a walk needs to know of the grammar that a tree follows: the numbers of the constructs it looks
at, the words that are no symbols, and where the versions of the indexed language differ.
-/

namespace CrossRef

/-- A grammar, as far as indexing depends on it. -/
structure Grammar where
  /-- The names of all kinds. -/
  names : KindNames
  /-- The words that are plain text unless they hold a mark. -/
  keywords : List String
  globalStatement : Nat
  functionDefinition : Nat
  decorators : Nat
  decorated : Nat
  decorator : Nat
  dottedName : Nat
  importFrom : Nat
  importName : Nat
  /-- The list of what an import statement imports. -/
  importedNames : Nat
  expressionStatement : Nat
  augmentedAssignment : Nat
  testList : Nat
  yieldExpression : Nat
  test : Nat
  classDefinition : Nat
  power : Nat
  atom : Nat
  trailer : Nat
  /-- What stands on the left of an assignment. -/
  targetList : Nat
  /-- The members of such a list that can be assigned to. -/
  targets : List Nat
  /-- What stands between the brackets of a target in brackets. -/
  bracketed : List Nat
  /-- The terminals that can hold a mark. -/
  markable : List Nat
  /-- The terminals in front of the module of a relative import. -/
  relativeDots : List Nat
  /-- Whether half a module is left out when the modules of an import statement are counted. -/
  wholeImports : Bool
  /-- Whether the type of lists goes by the name that an outline asks for. -/
  namesListType : Bool
  deriving Repr

namespace Grammar

/-- The names of the constructs that all versions share. -/
def sharedConstructs : KindNames :=
  [(256, "single_input"), (257, "file_input"), (258, "eval_input"), (259, "decorator"),
   (260, "decorators"), (261, "decorated"), (262, "funcdef"), (263, "parameters"),
   (264, "typedargslist"), (265, "tfpdef"), (266, "varargslist"), (267, "vfpdef"), (268, "stmt"),
   (269, "simple_stmt"), (270, "small_stmt"), (271, "expr_stmt"), (272, "testlist_star_expr"),
   (273, "augassign"), (274, "del_stmt"), (275, "pass_stmt"), (276, "flow_stmt"),
   (277, "break_stmt"), (278, "continue_stmt"), (279, "return_stmt"), (280, "yield_stmt"),
   (281, "raise_stmt"), (282, "import_stmt"), (283, "import_name"), (284, "import_from"),
   (285, "import_as_name"), (286, "dotted_as_name"), (287, "import_as_names"),
   (288, "dotted_as_names"), (289, "dotted_name"), (290, "global_stmt"), (291, "nonlocal_stmt"),
   (292, "assert_stmt"), (293, "compound_stmt"), (294, "if_stmt"), (295, "while_stmt"),
   (296, "for_stmt"), (297, "try_stmt"), (298, "with_stmt"), (299, "with_item"),
   (300, "except_clause"), (301, "suite"), (302, "test"), (303, "test_nocond"), (304, "lambdef"),
   (305, "lambdef_nocond"), (306, "or_test"), (307, "and_test"), (308, "not_test"),
   (309, "comparison"), (310, "comp_op"), (311, "star_expr"), (312, "expr"), (313, "xor_expr"),
   (314, "and_expr"), (315, "shift_expr"), (316, "arith_expr"), (317, "term"), (318, "factor"),
   (319, "power"), (320, "atom"), (321, "testlist_comp"), (322, "trailer"),
   (323, "subscriptlist"), (324, "subscript"), (325, "sliceop"), (326, "exprlist"),
   (327, "testlist"), (328, "dictorsetmaker"), (329, "classdef"), (330, "arglist"),
   (331, "argument"), (332, "comp_iter"), (333, "comp_for"), (334, "comp_if"),
   (335, "encoding_decl"), (336, "yield_expr"), (337, "yield_arg")]

/-- The names of the constructs that only the older versions have. -/
def olderConstructs : KindNames :=
  [(338, "listmaker"), (339, "testlist_gexp"), (340, "print_stmt"), (341, "exec_stmt"),
   (342, "testlist_safe")]

/-- The words of version 3 that are no symbols. -/
def keywords3 : List String :=
  ["False", "None", "True", "and", "as", "assert", "async", "await", "break", "class", "continue",
   "def", "del", "elif", "else", "except", "finally", "for", "from", "global", "if", "import", "in",
   "is", "lambda", "nonlocal", "not", "or", "pass", "raise", "return", "try", "while", "with", "yield"]

/-- The words of the older versions that are no symbols. -/
def keywords2 : List String :=
  ["and", "as", "assert", "break", "class", "continue", "def", "del", "elif", "else", "except", "exec",
   "finally", "for", "from", "global", "if", "import", "in", "is", "lambda", "not", "or", "pass",
   "print", "raise", "return", "try", "while", "with", "yield", "True", "False", "None"]

/-- Version 3 of the language. -/
def version3 : Grammar where
  names := Kind.terminalNames ++ sharedConstructs
  keywords := keywords3
  globalStatement := 290
  functionDefinition := 262
  decorators := 260
  decorated := 261
  decorator := 259
  dottedName := 289
  importFrom := 284
  importName := 283
  importedNames := 288
  expressionStatement := 271
  augmentedAssignment := 273
  testList := 327
  yieldExpression := 336
  test := 302
  classDefinition := 329
  power := 319
  atom := 320
  trailer := 322
  targetList := 272
  targets := [302, 311]
  bracketed := [321]
  markable := [Kind.name, Kind.dot, Kind.ellipsis]
  relativeDots := [Kind.dot, Kind.ellipsis]
  wholeImports := false
  namesListType := false

/-- Version 2.7, whose targets are plain lists of tests, which has no ellipsis terminal, which counts whole
modules only and which has a name for the type of lists. -/
def version27 : Grammar :=
  { version3 with
    names := version3.names ++ olderConstructs
    keywords := keywords2
    targetList := 327
    targets := [302]
    bracketed := [321, 338]
    markable := [Kind.name, Kind.dot]
    relativeDots := [Kind.dot]
    wholeImports := true
    namesListType := true }

/-- Version 2.6, which has a construct of its own between parentheses. -/
def version26 : Grammar :=
  { version27 with bracketed := [339, 338] }

/-- The name of a kind. -/
def nameOf (grammar : Grammar) (kind : Element) : Except Fault String :=
  match kind.hashable with
  | .error fault => .error fault
  | .ok () =>
    match grammar.names.find? fun (number, _) => kind.isNumber number with
    | some (_, name) => .ok name
    | none => .error (.unknownKind kind)

/-- The number of the kind with the given name. -/
def numberOf? (grammar : Grammar) (name : String) : Option Nat :=
  (grammar.names.find? fun entry => entry.2 = name).map (·.1)

/-- The names of the terminals that can hold a mark. -/
def markableNames (grammar : Grammar) : List String :=
  grammar.markable.filterMap fun kind => grammar.names.lookup kind

/-- Twice the number of modules that a list of imported names comes to; every module has its name and the
comma in front of it or the kind of the list. -/
def importHalves (grammar : Grammar) (elements : Nat) : Nat :=
  if grammar.wholeImports then 2 * (elements / 2) else elements

/-- A list with a separator between any two names counts in full in every version. -/
theorem importHalves_of_even (grammar : Grammar) {elements : Nat} (even : elements % 2 = 0) :
    grammar.importHalves elements = elements := by
  unfold importHalves
  split
  · omega
  · rfl

def isKeyword (grammar : Grammar) (text : Element) : Bool :=
  grammar.keywords.any (text.isText ·)

end Grammar

/-- How source texts are indexed. -/
structure Settings where
  grammar : Grammar := .version3
  /-- Whether a string that holds an identifier is a symbol. -/
  stringSymbols : Bool := false
  deriving Repr

end CrossRef
