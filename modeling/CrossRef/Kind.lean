/-!
# Kinds

Every node of a syntax tree starts with a number, its kind.  Kinds below 256 belong to terminals and
are fixed; the others belong to the constructs of a grammar and depend on it.
-/

namespace CrossRef

/-- A table of the names of kinds. -/
abbrev KindNames := List (Nat × String)

namespace Kind

/-- The kinds from this number on belong to constructs, those below to terminals. -/
def firstConstruct : Nat := 256

def endMarker : Nat := 0

def name : Nat := 1

def string : Nat := 3

def newline : Nat := 4

def indent : Nat := 5

def dedent : Nat := 6

def leftParenthesis : Nat := 7

def rightParenthesis : Nat := 8

def leftBracket : Nat := 9

def rightBracket : Nat := 10

def comma : Nat := 12

def equal : Nat := 22

def dot : Nat := 23

/-- The sign in front of a decorator. -/
def atSign : Nat := 49

def ellipsis : Nat := 52

/-- The names of the kinds of terminals. -/
def terminalNames : KindNames :=
  [(0, "ENDMARKER"), (1, "NAME"), (2, "NUMBER"), (3, "STRING"), (4, "NEWLINE"), (5, "INDENT"),
   (6, "DEDENT"), (7, "LPAR"), (8, "RPAR"), (9, "LSQB"), (10, "RSQB"), (11, "COLON"),
   (12, "COMMA"), (13, "SEMI"), (14, "PLUS"), (15, "MINUS"), (16, "STAR"), (17, "SLASH"),
   (18, "VBAR"), (19, "AMPER"), (20, "LESS"), (21, "GREATER"), (22, "EQUAL"), (23, "DOT"),
   (24, "PERCENT"), (25, "LBRACE"), (26, "RBRACE"), (27, "EQEQUAL"), (28, "NOTEQUAL"),
   (29, "LESSEQUAL"), (30, "GREATEREQUAL"), (31, "TILDE"), (32, "CIRCUMFLEX"), (33, "LEFTSHIFT"),
   (34, "RIGHTSHIFT"), (35, "DOUBLESTAR"), (36, "PLUSEQUAL"), (37, "MINEQUAL"), (38, "STAREQUAL"),
   (39, "SLASHEQUAL"), (40, "PERCENTEQUAL"), (41, "AMPEREQUAL"), (42, "VBAREQUAL"),
   (43, "CIRCUMFLEXEQUAL"), (44, "LEFTSHIFTEQUAL"), (45, "RIGHTSHIFTEQUAL"),
   (46, "DOUBLESTAREQUAL"), (47, "DOUBLESLASH"), (48, "DOUBLESLASHEQUAL"), (49, "AT"),
   (50, "ATEQUAL"), (51, "RARROW"), (52, "ELLIPSIS"), (53, "COLONEQUAL"), (54, "OP"),
   (55, "AWAIT"), (56, "ASYNC"), (57, "TYPE_IGNORE"), (58, "TYPE_COMMENT"), (59, "SOFT_KEYWORD"),
   (60, "ERRORTOKEN"), (61, "COMMENT"), (62, "NL"), (63, "ENCODING"), (64, "N_TOKENS")]

end Kind

end CrossRef
