import CrossRef.Number.Double

/-!
# Shortest decimals

The decimal text of a floating-point number: the fewest digits that read back as the same number,
and of those the nearest.  Numbers from 0.0001 up to 10^16 are written with a decimal point, all
others with an exponent of at least two digits.
-/

namespace CrossRef.Double

/-- The distances of a number to the ends of the interval of reals that round to it, in quarters of
its unit in the last place: below, above. -/
def margins (number : Double) : Nat × Nat :=
  if number.fraction = 0 && 1 < number.exponentField then (1, 2) else (2, 2)

/-- Whether a fraction of two integers rounds to a finite number. -/
def roundsHere (number : Double) (numerator denominator : Nat) : Bool :=
  let scale := number.ratio.2 * 4
  let unit := if 0 ≤ number.exponent then Nat.pow 2 number.exponent.toNat else 1
  let center := number.ratio.1 * 4
  let low := (center - number.margins.1 * unit) * denominator
  let high := (center + number.margins.2 * unit) * denominator
  let point := numerator * scale
  if number.coefficient % 2 = 0 then low ≤ point && point ≤ high else low < point && point < high

/-- The number of decimal places to shift a positive fraction so that it is at least one. -/
def leadingShift (numerator denominator : Nat) : Nat → Nat
  | 0 => 0
  | fuel + 1 => if denominator ≤ numerator then 0 else leadingShift (numerator * 10) denominator fuel + 1

/-- The position of the decimal point of a positive fraction relative to its first digit. -/
def pointPosition (numerator denominator : Nat) : Int :=
  if denominator ≤ numerator then (Nat.toDigits 10 (numerator / denominator)).length
  else 1 - (leadingShift numerator denominator 400 : Int)

/-- The candidate with the given number of digits that is nearest to a positive finite number, if one
rounds to it, with the power of ten of its last digit. -/
def candidate? (number : Double) (digits : Nat) : Option (Nat × Int) :=
  let (numerator, denominator) := number.ratio
  let power := pointPosition numerator denominator - digits
  let up := Nat.pow 10 power.toNat
  let down := Nat.pow 10 (-power).toNat
  let lower := numerator * down / (denominator * up)
  let remainder := numerator * down % (denominator * up)
  let lowerFits := number.roundsHere (lower * up) down
  let upperFits := number.roundsHere ((lower + 1) * up) down
  let preferLower := 2 * remainder < denominator * up ||
    (2 * remainder = denominator * up && lower % 2 = 0)
  if lowerFits && (preferLower || !upperFits) then some (lower, power)
  else if upperFits then some (lower + 1, power)
  else none

/-- The shortest decimal of a positive finite number: its digits as an integer and the power of ten
of the last one. -/
def shortest (number : Double) : Nat × Int :=
  ((List.range 17).findSome? fun index => number.candidate? (index + 1)).getD (0, 0)

/-- A decimal without its trailing zeros. -/
def stripZeros (digits : List Char) : List Char :=
  (digits.reverse.dropWhile (· = '0')).reverse

/-- The decimal text of a positive finite number. -/
def positiveText (number : Double) : String :=
  let (integer, power) := number.shortest
  let written := Nat.toDigits 10 integer
  let point : Int := written.length + power
  let digits := stripZeros written
  let count : Int := digits.length
  String.ofList <|
    if point ≤ -4 || 16 < point then
      let exponent := point - 1
      let magnitude := Nat.toDigits 10 exponent.natAbs
      let padded := if magnitude.length < 2 then '0' :: magnitude else magnitude
      let tail := 'e' :: (if exponent < 0 then '-' else '+') :: padded
      match digits with
      | [] => tail
      | [digit] => digit :: tail
      | digit :: more => digit :: '.' :: more ++ tail
    else if point ≤ 0 then '0' :: '.' :: List.replicate (-point).toNat '0' ++ digits
    else if count ≤ point then digits ++ List.replicate (point - count).toNat '0' ++ ['.', '0']
    else digits.take point.toNat ++ '.' :: digits.drop point.toNat

/-- The text of a floating-point number. -/
def text (number : Double) : String :=
  if number.isNaN then "nan"
  else
    (if number.isNegative then "-" else "") ++
      (if !number.isFinite then "inf" else if number.isZero then "0.0" else number.positiveText)

end CrossRef.Double
