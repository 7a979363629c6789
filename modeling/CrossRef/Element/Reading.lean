import CrossRef.Element.Literal
import CrossRef.Number.Literal

/-!
# Reading written elements

The written form of an element, read back.  Blanks may stand between the parts of a sequence, and a
comma may follow its last element.
-/

namespace CrossRef.Element

/-- The value of a digit in base sixteen. -/
def hexDigit? (char : Char) : Option Nat :=
  if '0' ≤ char && char ≤ '9' then some (char.toNat - '0'.toNat)
  else if 'a' ≤ char && char ≤ 'f' then some (char.toNat - 'a'.toNat + 10)
  else if 'A' ≤ char && char ≤ 'F' then some (char.toNat - 'A'.toNat + 10)
  else none

/-- The character whose code is written in base sixteen. -/
def readCode? (digits : List Char) : Option Char :=
  (digits.foldlM (fun value digit => (hexDigit? digit).map (value * 16 + ·)) 0).map Char.ofNat

/-- The number of digits that follow the letter of an escape by code. -/
def codeWidth? : Char → Option Nat
  | 'x' => some 2
  | 'u' => some 4
  | 'U' => some 8
  | _ => none

/-- The character that an escape without a code stands for. -/
def escaped : Char → Char
  | 'n' => '\n'
  | 't' => '\t'
  | 'r' => '\r'
  | char => char

/-- Reads the characters up to the closing quote; `fuel` bounds their number. -/
def readQuoted (quote : Char) : Nat → List Char → Option (List Char × List Char)
  | 0, _ | _, [] => none
  | fuel + 1, '\\' :: letter :: rest =>
    match codeWidth? letter with
    | none => (readQuoted quote fuel rest).map fun (chars, after) => (escaped letter :: chars, after)
    | some width =>
      match readCode? (rest.take width), readQuoted quote fuel (rest.drop width) with
      | some char, some (chars, after) => some (char :: chars, after)
      | _, _ => none
  | fuel + 1, char :: rest =>
    if char = quote then some ([], rest)
    else (readQuoted quote fuel rest).map fun (chars, after) => (char :: chars, after)

/-- Whether a character ends a word. -/
def endsWord (char : Char) : Bool :=
  Text.isBlank char || char = ',' || char = ')' || char = ']'

/-- The element that a word stands for. -/
def ofWord? (word : String) : Option Element :=
  match word with
  | "None" => some .null
  | "True" => some (.bool true)
  | "False" => some (.bool false)
  | _ => (Number.readInteger word).map .int

def skipBlanks (chars : List Char) : List Char :=
  chars.dropWhile Text.isBlank

mutual

/-- Reads an element; `fuel` bounds the number of steps. -/
def readElement : Nat → List Char → Option (Element × List Char)
  | 0, _ => none
  | fuel + 1, chars =>
    match skipBlanks chars with
    | '(' :: rest => (readSequence ')' fuel rest).map fun (elements, after) => (.node elements, after)
    | '[' :: rest => (readSequence ']' fuel rest).map fun (elements, after) => (.list elements, after)
    | '\'' :: rest =>
      (readQuoted '\'' fuel rest).map fun (quoted, after) => (.text (String.ofList quoted), after)
    | '"' :: rest =>
      (readQuoted '"' fuel rest).map fun (quoted, after) => (.text (String.ofList quoted), after)
    | rest =>
      (ofWord? (String.ofList (rest.takeWhile fun char => !endsWord char))).map fun element =>
        (element, rest.dropWhile fun char => !endsWord char)

/-- Reads the elements up to the closing bracket. -/
def readSequence (close : Char) : Nat → List Char → Option (List Element × List Char)
  | 0, _ => none
  | fuel + 1, chars =>
    match skipBlanks chars with
    | [] => none
    | char :: rest =>
      if char = close then some ([], rest)
      else
        match readElement fuel (char :: rest) with
        | none => none
        | some (element, after) =>
          let remaining := match skipBlanks after with
            | ',' :: rest => rest
            | rest => rest
          (readSequence close fuel remaining).map fun (elements, after) => (element :: elements, after)

end

/-- The element whose written form a text is, between blanks. -/
def ofLiteral? (text : String) : Option Element :=
  match readElement (text.length + 1) text.toList with
  | some (element, after) => if (skipBlanks after).isEmpty then some element else none
  | none => none

end CrossRef.Element
