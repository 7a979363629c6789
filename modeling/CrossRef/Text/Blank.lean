/-!
# Blank characters

The characters that separate words and are dropped at the end of a row: the controls from tab to
carriage return and from U+001C to U+001F, the space, and the spaces of Unicode beyond ASCII.
-/

namespace CrossRef.Text

/-- The blanks beyond ASCII. -/
def wideBlanks : List Nat :=
  [0x85, 0xA0, 0x1680, 0x2000, 0x2001, 0x2002, 0x2003, 0x2004, 0x2005, 0x2006, 0x2007, 0x2008,
   0x2009, 0x200A, 0x2028, 0x2029, 0x202F, 0x205F, 0x3000]

/-- Whether a character is a blank. -/
def isBlank (char : Char) : Bool :=
  let code := char.toNat
  (9 ≤ code && code ≤ 13) || (28 ≤ code && code ≤ 32) || wideBlanks.contains code

/-- The text without its trailing blanks. -/
def trimRight (text : String) : String :=
  String.ofList (text.toList.reverse.dropWhile isBlank).reverse

end CrossRef.Text
