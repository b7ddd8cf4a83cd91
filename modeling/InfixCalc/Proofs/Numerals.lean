import InfixCalc.Text.Decimal
import Mathlib.Data.List.Induction
import Mathlib.Data.Nat.Digits.Defs

/-!
# Written numbers

A numeral is a row of digits, with or without a minus in front, and stands for
an integer in positional notation.  The decimal form of an integer is a
numeral, and it is read as the integer it was written for.

* `numeralValue?_eq_some_iff` : numerals are read, with their values.
* `numeralValue?_ofInt` : integers are read back.
* `Value.ofInt?_toInt` : every operand is in range.
-/

namespace InfixCalc

namespace Value

/-- An integer that an operand can have as its value. -/
def InRange (n : Int) : Prop :=
  -2 ^ 63 ≤ n ∧ n ≤ 2 ^ 63 - 1

theorem ofInt?_of_inRange
    {n : Int}
    (hrange : InRange n) :
    ofInt? n = some (Int64.ofInt n) :=
  if_pos hrange

theorem ofInt?_of_not_inRange
    {n : Int}
    (hrange : ¬InRange n) :
    ofInt? n = none :=
  if_neg hrange

theorem toInt_ofInt
    {n : Int}
    (hrange : InRange n) :
    (Int64.ofInt n).toInt = n :=
  Int64.toInt_ofInt_of_le hrange.1 (Int.lt_of_le_sub_one hrange.2)

theorem inRange_toInt
    (value : Value) :
    InRange value.toInt :=
  ⟨Int64.minValue_le_toInt value, Int64.toInt_le value⟩

theorem ofInt?_toInt
    (value : Value) :
    Value.ofInt? value.toInt = some value := by
  rw [ofInt?_of_inRange (inRange_toInt value), Int64.ofInt_toInt]

end Value

namespace Text

theorem ofNat_ne_nil
    (n : Nat) :
    ofNat n ≠ [] :=
  Nat.toDigits_ne_nil

theorem isDigit_of_mem_ofNat
    {n : Nat} {c : Char}
    (hmem : c ∈ ofNat n) :
    c.isDigit = true :=
  Nat.isDigit_of_mem_toDigits (by decide) (by decide) hmem

theorem all_isDigit_ofNat
    (n : Nat) :
    (ofNat n).all Char.isDigit = true :=
  List.all_eq_true.mpr fun _ hmem => isDigit_of_mem_ofNat hmem

@[simp] theorem digitsValue_ofNat
    (n : Nat) :
    digitsValue (ofNat n) = n :=
  Nat.ofDigitChars_ten_toDigits

/-- The forms of an integer: digits, or a minus and digits. -/
theorem ofInt_cases
    (value : Int) :
    (∃ n : Nat, value = n ∧ ofInt value = ofNat n) ∨
      ∃ n : Nat, value = -((n + 1 : Nat) : Int) ∧ ofInt value = '-' :: ofNat (n + 1) := by
  cases value with
  | ofNat n =>
      exact Or.inl ⟨n, rfl, rfl⟩
  | negSucc n =>
      exact Or.inr ⟨n, rfl, rfl⟩

theorem numeralValue?_of_digits
    {digits : Text}
    (hne : digits ≠ [])
    (hdigits : digits.all Char.isDigit = true) :
    numeralValue? digits = some (digitsValue digits : Int) := by
  cases digits with
  | nil =>
      exact absurd rfl hne
  | cons c rest =>
      have hminus : c ≠ '-' := by
        rintro rfl
        simp at hdigits
      rw [numeralValue?, if_pos hdigits]
      · simp
      · intro digits hcons
        exact hminus (List.cons.inj hcons).1

theorem numeralValue?_of_minus
    {digits : Text}
    (hne : digits ≠ [])
    (hdigits : digits.all Char.isDigit = true) :
    numeralValue? ('-' :: digits) = some (-(digitsValue digits : Int)) := by
  rw [numeralValue?, if_pos ⟨hne, hdigits⟩]

/-- The value of digits in positional notation, the last digit being the one of
the units. -/
def placeValue (digits : Text) : Nat :=
  Nat.ofDigits 10 (digits.reverse.map fun c => c.toNat - '0'.toNat)

/-- A numeral and the integer it stands for. -/
inductive Numeral : Text → Int → Prop where
  | unsigned {digits : Text}
      (nonempty : digits ≠ [])
      (decimal : ∀ c ∈ digits, c.isDigit = true) :
      Numeral digits (placeValue digits)
  | negative {digits : Text}
      (nonempty : digits ≠ [])
      (decimal : ∀ c ∈ digits, c.isDigit = true) :
      Numeral ('-' :: digits) (-(placeValue digits : Int))

theorem digitsValue_eq_placeValue
    (digits : Text) :
    digitsValue digits = placeValue digits := by
  unfold digitsValue placeValue
  induction digits using List.reverseRecOn with
  | nil =>
      rfl
  | append_singleton digits c ih =>
      rw [Nat.ofDigitChars_append, Nat.ofDigitChars_cons, Nat.ofDigitChars_nil, ih,
        List.reverse_append, List.reverse_singleton, List.singleton_append, List.map_cons,
        Nat.ofDigits_cons, Nat.add_comm]

/-- Numerals are read, and nothing else is. -/
theorem numeralValue?_eq_some_iff
    {piece : Text} {value : Int} :
    numeralValue? piece = some value ↔ Numeral piece value := by
  constructor
  · intro hvalue
    unfold numeralValue? at hvalue
    split at hvalue
    · cases hvalue
    · split at hvalue
      · next digits hdigits =>
          cases hvalue
          rw [digitsValue_eq_placeValue]
          exact .negative hdigits.1 (List.all_eq_true.mp hdigits.2)
      · cases hvalue
    · next hne _ =>
        split at hvalue
        · next hdigits =>
            cases hvalue
            rw [digitsValue_eq_placeValue]
            exact .unsigned hne (List.all_eq_true.mp hdigits)
        · cases hvalue
  · rintro (⟨hne, hdigits⟩ | ⟨hne, hdigits⟩)
    · rw [numeralValue?_of_digits hne (List.all_eq_true.mpr hdigits), digitsValue_eq_placeValue]
    · rw [numeralValue?_of_minus hne (List.all_eq_true.mpr hdigits), digitsValue_eq_placeValue]

/-- Integers are read back. -/
theorem numeralValue?_ofInt
    (value : Int) :
    numeralValue? (ofInt value) = some value := by
  rcases ofInt_cases value with ⟨n, rfl, htext⟩ | ⟨n, rfl, htext⟩
  · rw [htext, numeralValue?_of_digits (ofNat_ne_nil n) (all_isDigit_ofNat n), digitsValue_ofNat]
  · rw [htext, numeralValue?_of_minus (ofNat_ne_nil _) (all_isDigit_ofNat _), digitsValue_ofNat]

theorem numeral_ofInt
    (value : Int) :
    Numeral (ofInt value) value :=
  numeralValue?_eq_some_iff.mp (numeralValue?_ofInt value)

end Text
end InfixCalc
