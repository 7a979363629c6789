/-!
# Binary floating-point numbers

A number with a binary exponent, as its 64 bits: sign, eleven bits of exponent, 52 bits of fraction.
Comparison with integers and truncation are exact, since both work on the integers `coefficient` and
`exponent` that a finite number consists of.
-/

namespace CrossRef

/-- A floating-point number in its 64-bit form. -/
structure Double where
  bits : UInt64
  deriving DecidableEq, Repr

namespace Double

def isNegative (number : Double) : Bool :=
  Nat.pow 2 63 ≤ number.bits.toNat

def exponentField (number : Double) : Nat :=
  number.bits.toNat / Nat.pow 2 52 % Nat.pow 2 11

def fraction (number : Double) : Nat :=
  number.bits.toNat % Nat.pow 2 52

def isFinite (number : Double) : Bool :=
  number.exponentField ≠ 2047

def isNaN (number : Double) : Bool :=
  !number.isFinite && number.fraction ≠ 0

/-- The integer that, times two to the power of `exponent`, is the absolute value of a finite number. -/
def coefficient (number : Double) : Nat :=
  if number.exponentField = 0 then number.fraction else Nat.pow 2 52 + number.fraction

/-- The power of two that belongs to `coefficient`. -/
def exponent (number : Double) : Int :=
  (max 1 number.exponentField : Int) - 1075

def isZero (number : Double) : Bool :=
  number.exponentField = 0 && number.fraction = 0

/-- The absolute value of a finite number as a fraction of two integers. -/
def ratio (number : Double) : Nat × Nat :=
  if 0 ≤ number.exponent then (number.coefficient * Nat.pow 2 number.exponent.toNat, 1)
  else (number.coefficient, Nat.pow 2 (-number.exponent).toNat)

/-- The sign of a number as a factor. -/
def sign (number : Double) : Int :=
  if number.isNegative then -1 else 1

/-- Whether a number equals an integer. -/
def equals (number : Double) (integer : Int) : Bool :=
  number.isFinite && number.sign * number.ratio.1 = integer * number.ratio.2

/-- Whether a number is at least an integer; nothing that is not a number is. -/
def atLeast (number : Double) (integer : Int) : Bool :=
  if number.isFinite then integer * number.ratio.2 ≤ number.sign * number.ratio.1
  else !number.isNaN && !number.isNegative

/-- A finite number without its fractional part. -/
def truncate (number : Double) : Int :=
  number.sign * (number.ratio.1 / number.ratio.2 : Nat)

end Double

end CrossRef
