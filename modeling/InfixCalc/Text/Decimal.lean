import InfixCalc.Text.Blank

/-!
# Decimal numbers

Integers are written in decimal with a leading minus for negative values.  A
numeral that is read may have leading zeros, and `-0` is zero; whether a value
is in range for an operand is decided by `Value.ofInt?`.
-/

namespace InfixCalc

/-- The operands of the calculator: 64-bit two's complement integers. -/
abbrev Value := Int64

namespace Value

/-- The operand with a given value, if it lies between the least operand,
`-2^63`, and the greatest, `2^63 - 1`. -/
def ofInt? (value : Int) : Option Value :=
  if Int64.minValue.toInt ≤ value ∧ value ≤ Int64.maxValue.toInt then
    some (Int64.ofInt value)
  else
    none

end Value

namespace Text

/-- The decimal digits of a natural number, without leading zeros. -/
def ofNat (n : Nat) : Text :=
  Nat.toDigits 10 n

/-- The decimal form of an integer. -/
def ofInt : Int → Text
  | .ofNat n => ofNat n
  | .negSucc n => '-' :: ofNat (n + 1)

/-- The decimal form of an operand. -/
def ofValue (value : Value) : Text :=
  ofInt value.toInt

/-- The value of a list of decimal digits. -/
def digitsValue (digits : Text) : Nat :=
  Nat.ofDigitChars 10 digits 0

/-- The value of a numeral, digits with or without a leading minus. -/
def numeralValue? : Text → Option Int
  | [] => none
  | '-' :: digits =>
    if digits ≠ [] ∧ digits.all Char.isDigit then
      some (-(digitsValue digits : Int))
    else
      none
  | digits =>
    if digits.all Char.isDigit then
      some (digitsValue digits : Int)
    else
      none

end Text
end InfixCalc
