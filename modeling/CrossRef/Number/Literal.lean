import CrossRef.Text.Blank
import CrossRef.Text.Digit

/-!
# Integer literals

A decimal integer may stand between blanks, may have a sign, and may have single underscores between
its digits, which may be digits of any script.
-/

namespace CrossRef.Number

/-- Whether a character may surround an integer literal: a blank other than the separators U+001C to
U+001F. -/
def padsLiteral (char : Char) : Bool :=
  Text.isBlank char && !(28 ≤ char.toNat && char.toNat ≤ 31)

/-- The characters without the padding at both ends. -/
def trimPadding (chars : List Char) : List Char :=
  ((chars.dropWhile padsLiteral).reverse.dropWhile padsLiteral).reverse

/-- Reads digits with single underscores between them, after a digit has been read. -/
def readDigits (value : Nat) : List Char → Option Nat
  | [] => some value
  | '_' :: char :: rest =>
    match Text.digitValue? char with
    | some digit => readDigits (value * 10 + digit) rest
    | none => none
  | char :: rest =>
    match Text.digitValue? char with
    | some digit => readDigits (value * 10 + digit) rest
    | none => none

/-- Reads digits, of which there must be at least one. -/
def readNatural : List Char → Option Nat
  | [] => none
  | char :: rest =>
    match Text.digitValue? char with
    | some digit => readDigits digit rest
    | none => none

/-- Reads an integer literal. -/
def readInteger (text : String) : Option Int :=
  match trimPadding text.toList with
  | '-' :: rest => (readNatural rest).map fun value => -(value : Int)
  | '+' :: rest => (readNatural rest).map Int.ofNat
  | chars => (readNatural chars).map Int.ofNat

end CrossRef.Number
