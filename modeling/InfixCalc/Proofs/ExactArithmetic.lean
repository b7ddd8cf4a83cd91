import InfixCalc.Arithmetic
import InfixCalc.Proofs.Numerals
import Mathlib.Algebra.Order.Ring.Int
import Mathlib.Data.Int.Basic

/-!
# Arithmetic on unbounded integers

Every operator computes on 64-bit integers what it stands for on unbounded
ones.  A result in range is exact, and a result out of range is an error: the
operations agree with `Value.ofInt?` of the exact result.

A power is computed from its half.  No power on the way is out of range when
the whole power is in range, because a power with a smaller exponent is at most
half as large, unless the base is zero, one or minus one.  For exponents that
32 bits do not hold these three bases have a table, which says the same.

* `Value.add?_eq_ofInt?` and its siblings : checked operations and exact results.
* `Value.pow?_eq_ofInt?` : powers with any natural exponent.
* `Value.power?_eq_pow?` : the table agrees with them.
* `Operator.apply_exact` : the value of every operator on all operands.
-/

namespace InfixCalc
namespace Value

/-- An operation that wraps around is exact with a test for results that are
out of range. -/
theorem checked_eq_ofInt?
    {overflows : Bool} {wrapped : Value} {exact : Int}
    (hoverflows : overflows = true ↔ ¬InRange exact)
    (hwrapped : wrapped = Int64.ofInt exact) :
    (if overflows then none else some wrapped) = ofInt? exact := by
  by_cases hrange : InRange exact
  · rw [ofInt?_of_inRange hrange, if_neg (by simpa [hoverflows] using hrange), hwrapped]
  · rw [ofInt?_of_not_inRange hrange, if_pos (hoverflows.mpr hrange)]

theorem not_inRange_iff
    {n : Int} :
    2 ^ 63 ≤ n ∨ n < -2 ^ 63 ↔ ¬InRange n := by
  unfold InRange
  omega

theorem add?_eq_ofInt?
    (left right : Value) :
    left.add? right = ofInt? (left.toInt + right.toInt) := by
  refine checked_eq_ofInt? ?_ ?_
  · rw [← not_inRange_iff]
    simp [BitVec.saddOverflow]
  · rw [Int64.ofInt_add, Int64.ofInt_toInt, Int64.ofInt_toInt]

theorem sub?_eq_ofInt?
    (left right : Value) :
    left.sub? right = ofInt? (left.toInt - right.toInt) := by
  refine checked_eq_ofInt? ?_ ?_
  · rw [← not_inRange_iff]
    simp [BitVec.ssubOverflow]
  · rw [Int64.ofInt_sub, Int64.ofInt_toInt, Int64.ofInt_toInt]

theorem mul?_eq_ofInt?
    (left right : Value) :
    left.mul? right = ofInt? (left.toInt * right.toInt) := by
  refine checked_eq_ofInt? ?_ ?_
  · rw [← not_inRange_iff]
    simp [BitVec.smulOverflow]
  · rw [Int64.ofInt_mul, Int64.ofInt_toInt, Int64.ofInt_toInt]

/-- The one pair of operands whose quotient is out of range. -/
theorem eq_minValue_iff
    {left right : Value} :
    left = Int64.minValue ∧ right = -1 ↔ left.toInt = -2 ^ 63 ∧ right.toInt = -1 := by
  rw [← Int64.toInt_inj, ← Int64.toInt_inj]
  exact Iff.rfl

theorem div?_eq_ofInt?
    (left right : Value) :
    left.div? right = ofInt? (left.toInt.tdiv right.toInt) := by
  rw [div?]
  by_cases hleast : left = Int64.minValue ∧ right = -1
  · rw [if_pos hleast]
    obtain ⟨rfl, rfl⟩ := hleast
    decide
  · have hquotient : (left / right).toInt = left.toInt.tdiv right.toInt := by
      rcases not_and_or.mp hleast with hleft | hright
      · exact Int64.toInt_div_of_ne_left left right hleft
      · exact Int64.toInt_div_of_ne_right left right hright
    rw [if_neg hleast, ← hquotient, ofInt?_toInt]

theorem inRange_of_natAbs
    {n : Int}
    (habs : n.natAbs < 2 ^ 63) :
    InRange n := by
  unfold InRange
  omega

theorem natAbs_of_inRange
    {n : Int}
    (hrange : InRange n) :
    n.natAbs ≤ 2 ^ 63 := by
  unfold InRange at hrange
  omega

/-- A power with a smaller exponent is in range if the power is. -/
theorem inRange_pow_of_le
    {base : Int} {smaller exponent : Nat}
    (hle : smaller ≤ exponent)
    (hrange : InRange (base ^ exponent)) :
    InRange (base ^ smaller) := by
  rcases Nat.eq_or_lt_of_le hle with rfl | hlt
  · exact hrange
  · apply inRange_of_natAbs
    have hpower := natAbs_of_inRange hrange
    rw [Int.natAbs_pow] at hpower ⊢
    rcases Nat.lt_or_ge base.natAbs 2 with hunit | hbase
    · calc base.natAbs ^ smaller
          ≤ 1 ^ smaller := Nat.pow_le_pow_left (by omega) smaller
        _ < 2 ^ 63 := by simp
    · have hdouble : base.natAbs ^ smaller * 2 ≤ base.natAbs ^ exponent := by
        calc base.natAbs ^ smaller * 2
            ≤ base.natAbs ^ smaller * base.natAbs := Nat.mul_le_mul_left _ hbase
          _ = base.natAbs ^ (smaller + 1) := (Nat.pow_succ ..).symm
          _ ≤ base.natAbs ^ exponent := Nat.pow_le_pow_right (by omega) hlt
      omega

/-- A step after a result that is in range whenever the exact end result is. -/
theorem bind_ofInt?
    {intermediate exact : Int} {next : Value → Option Value}
    (hrange : InRange exact → InRange intermediate)
    (hnext : ∀ value, value.toInt = intermediate → next value = ofInt? exact) :
    (ofInt? intermediate).bind next = ofInt? exact := by
  by_cases hfits : InRange intermediate
  · rw [ofInt?_of_inRange hfits, Option.bind_some]
    exact hnext _ (toInt_ofInt hfits)
  · rw [ofInt?_of_not_inRange hfits, ofInt?_of_not_inRange (mt hrange hfits), Option.bind_none]

/-- A checked power is the exact power, for every exponent. -/
theorem pow?_eq_ofInt?
    (base : Value) (exponent : Nat) :
    base.pow? exponent = ofInt? (base.toInt ^ exponent) := by
  fun_induction pow? base exponent with
  | case1 =>
      rw [pow_zero]
      rfl
  | case2 =>
      rw [pow_one, ofInt?_toInt]
  | case3 exponent hzero hone ih =>
      -- The half and its square are in range if the whole power is, so a
      -- failure on the way is never a failure too early.
      rw [ih]
      refine bind_ofInt? (inRange_pow_of_le (by omega)) fun half hhalf => ?_
      rw [mul?_eq_ofInt?, hhalf, ← pow_add]
      refine bind_ofInt? (inRange_pow_of_le (by omega)) fun square hsquare => ?_
      split
      · next heven =>
          have hhalves : exponent / 2 + exponent / 2 = exponent := by
            omega
          rw [← ofInt?_toInt square, hsquare, hhalves]
      · next hodd =>
          have hhalves : exponent / 2 + exponent / 2 + 1 = exponent := by
            omega
          rw [mul?_eq_ofInt?, hsquare, ← pow_succ, hhalves]

/-- With a base of at least two, powers are out of range from the exponent 64 on. -/
theorem not_inRange_pow
    {base : Int} {exponent : Nat}
    (hbase : 2 ≤ base.natAbs)
    (hexponent : 64 ≤ exponent) :
    ¬InRange (base ^ exponent) := by
  intro hrange
  have hpower := natAbs_of_inRange (inRange_pow_of_le hexponent hrange)
  have hlarge : 2 ^ 64 ≤ base.natAbs ^ 64 := Nat.pow_le_pow_left hbase 64
  rw [Int.natAbs_pow] at hpower
  omega

/-- The remainder by two tells whether an exponent is even. -/
theorem mod_two_eq_zero_iff
    {exponent : Value}
    (hexponent : 0 ≤ exponent.toInt) :
    exponent % 2 = 0 ↔ Even exponent.toInt.toNat := by
  rw [← Int64.toInt_inj, Int64.toInt_mod, Nat.even_iff]
  change exponent.toInt.tmod 2 = 0 ↔ _
  rw [Int.tmod_eq_emod_of_nonneg hexponent]
  omega

/-- A power of minus one is one or minus one. -/
theorem ofInt?_neg_one_pow
    {exponent : Value}
    (hexponent : 0 ≤ exponent.toInt) :
    ofInt? ((-1) ^ exponent.toInt.toNat) = some (if exponent % 2 = 0 then 1 else -1) := by
  have hparity := mod_two_eq_zero_iff hexponent
  by_cases heven : exponent % 2 = 0
  · rw [if_pos heven, (hparity.mp heven).neg_one_pow]
    rfl
  · have hodd := Nat.not_even_iff_odd.mp (mt hparity.mpr heven)
    rw [if_neg heven, hodd.neg_one_pow]
    rfl

/-- The table has the exact powers. -/
theorem longPower?_eq_ofInt?
    {base exponent : Value}
    (hexponent : 64 ≤ exponent.toInt.toNat) :
    base.longPower? exponent = ofInt? (base.toInt ^ exponent.toInt.toNat) := by
  by_cases hzero : base = 0
  · subst hzero
    rw [longPower?, if_pos rfl, Int64.toInt_zero, zero_pow (by omega)]
    rfl
  by_cases hone : base = 1
  · subst hone
    rw [longPower?, if_neg hzero, if_pos rfl, Int64.toInt_one, one_pow]
    rfl
  by_cases hminus : base = -1
  · subst hminus
    have hbase : (-1 : Value).toInt = -1 := by
      decide
    rw [longPower?, if_neg hzero, if_neg hone, if_pos rfl, hbase,
      ofInt?_neg_one_pow (by omega)]
  · have hlarge : 2 ≤ base.toInt.natAbs := by
      rw [← Int64.toInt_inj] at hzero hone hminus
      change base.toInt ≠ 0 at hzero
      change base.toInt ≠ 1 at hone
      change base.toInt ≠ -1 at hminus
      omega
    rw [longPower?, if_neg hzero, if_neg hone, if_neg hminus,
      ofInt?_of_not_inRange (not_inRange_pow hlarge hexponent)]

theorem not_neg_of_toInt
    {exponent : Value}
    (hexponent : 0 ≤ exponent.toInt) :
    ¬exponent < 0 := by
  rw [Int64.lt_iff_toInt_lt]
  exact Int.not_lt.mpr hexponent

/-- The split of the exponents makes no difference to the powers. -/
theorem power?_eq_pow?
    {base exponent : Value}
    (hexponent : 0 ≤ exponent.toInt) :
    base.power? exponent = base.pow? exponent.toInt.toNat := by
  rw [power?, if_neg (not_neg_of_toInt hexponent), ← Int64.toNat_toInt]
  by_cases hshort : exponent.toInt.toNat < UInt32.size
  · rw [if_pos hshort]
  · have hlong : 64 ≤ exponent.toInt.toNat :=
      Nat.le_trans (by decide) (Nat.not_lt.mp hshort)
    rw [if_neg hshort, longPower?_eq_ofInt? hlong, pow?_eq_ofInt?]

/-- The greatest exponent is beyond 32 bits. -/
example : (-1 : Value).power? Int64.maxValue = some (-1) := by
  decide

theorem power?_of_neg
    {base exponent : Value}
    (hexponent : exponent < 0) :
    base.power? exponent = none := by
  exact if_pos hexponent

end Value

namespace Operator

open Value

variable {left right : Value}

/-- An operator comes to a result over the integers: the operand with this
value if there is one, and an overflow if there is none. -/
def ComesTo (op : Operator) (left right : Value) (exact : Int) : Prop :=
  (InRange exact → ∃ value, op.apply left right = .ok value ∧ value.toInt = exact) ∧
    (¬InRange exact → op.apply left right = .error (.overflow op left right))

theorem comesTo_of_apply
    {op : Operator} {exact : Int}
    (happly : op.apply left right = apply.orOverflow op left right (ofInt? exact)) :
    op.ComesTo left right exact := by
  constructor
  · intro hrange
    rw [ofInt?_of_inRange hrange] at happly
    exact ⟨Int64.ofInt exact, happly, toInt_ofInt hrange⟩
  · intro hrange
    rw [ofInt?_of_not_inRange hrange] at happly
    exact happly

theorem ne_zero_of_toInt
    (hright : right.toInt ≠ 0) :
    right ≠ 0 := by
  rintro rfl
  exact hright rfl

theorem comesTo_divide
    (hright : right.toInt ≠ 0) :
    divide.ComesTo left right (left.toInt.tdiv right.toInt) := by
  apply comesTo_of_apply
  rw [apply, if_neg (ne_zero_of_toInt hright), div?_eq_ofInt?]

theorem divide_eq_overflow_iff
    (hright : right.toInt ≠ 0) :
    divide.apply left right = .error (.overflow divide left right) ↔
      left.toInt = -2 ^ 63 ∧ right.toInt = -1 := by
  rw [apply, if_neg (ne_zero_of_toInt hright), div?, ← eq_minValue_iff]
  by_cases hleast : left = Int64.minValue ∧ right = -1
  · rw [if_pos hleast]
    exact iff_of_true rfl hleast
  · rw [if_neg hleast]
    exact iff_of_false (by rintro ⟨⟩) hleast

theorem modulo_apply
    (hright : right.toInt ≠ 0) :
    ∃ value,
      modulo.apply left right = .ok value ∧
      left.toInt = left.toInt.tdiv right.toInt * right.toInt + value.toInt ∧
      value.toInt.natAbs < right.toInt.natAbs ∧
      (value.toInt = 0 ∨ value.toInt.sign = left.toInt.sign) := by
  refine ⟨left % right, ?_, ?_, ?_, ?_⟩
  · rw [apply, if_neg (ne_zero_of_toInt hright)]
  · rw [Int64.toInt_mod, Int.tdiv_mul_add_tmod]
  · rw [Int64.toInt_mod, Int.natAbs_tmod]
    exact Nat.mod_lt _ (Int.natAbs_pos.mpr hright)
  · have hsign := Int.sign_tmod left.toInt right.toInt
    rw [Int64.toInt_mod, ← Int.sign_eq_zero_iff_zero]
    split at hsign
    · exact Or.inl hsign
    · exact Or.inr hsign

theorem comesTo_power
    (hright : 0 ≤ right.toInt) :
    power.ComesTo left right (left.toInt ^ right.toInt.toNat) := by
  apply comesTo_of_apply
  rw [apply, power?_eq_pow? hright, pow?_eq_ofInt?, if_neg (not_neg_of_toInt hright)]
  cases ofInt? (left.toInt ^ right.toInt.toNat) <;> rfl

theorem power_apply_of_neg
    (hright : right.toInt < 0) :
    power.apply left right = .error (.invalidExponent right) := by
  have hnegative : right < 0 := Int64.lt_iff_toInt_lt.mpr hright
  rw [apply, power?_of_neg hnegative, if_pos hnegative]

/-- What every operator does with two operands, said over the integers. -/
structure IsExact (left right : Value) : Prop where
  sum :
    plus.ComesTo left right (left.toInt + right.toInt)
  difference :
    minus.ComesTo left right (left.toInt - right.toInt)
  product :
    times.ComesTo left right (left.toInt * right.toInt)
  zero_divisor :
    right.toInt = 0 →
    divide.apply left right = .error .divisionByZero ∧
      modulo.apply left right = .error .moduloByZero
  /-- The quotient is truncated toward zero. -/
  quotient :
    right.toInt ≠ 0 →
    divide.ComesTo left right (left.toInt.tdiv right.toInt)
  quotient_overflow :
    right.toInt ≠ 0 →
    (divide.apply left right = .error (.overflow divide left right) ↔
      left.toInt = -2 ^ 63 ∧ right.toInt = -1)
  /-- There always is a remainder, also where the quotient is out of range. -/
  remainder :
    right.toInt ≠ 0 →
    ∃ value,
      modulo.apply left right = .ok value ∧
      left.toInt = left.toInt.tdiv right.toInt * right.toInt + value.toInt ∧
      value.toInt.natAbs < right.toInt.natAbs ∧
      (value.toInt = 0 ∨ value.toInt.sign = left.toInt.sign)
  negative_exponent :
    right.toInt < 0 →
    power.apply left right = .error (.invalidExponent right)
  /-- The power is exact for every exponent, and one for the exponent zero. -/
  natural_exponent :
    0 ≤ right.toInt →
    power.ComesTo left right (left.toInt ^ right.toInt.toNat)

/-- Every operator is exact on all operands. -/
theorem apply_exact
    (left right : Value) :
    IsExact left right where
  sum := by
    apply comesTo_of_apply
    rw [apply, add?_eq_ofInt?]
  difference := by
    apply comesTo_of_apply
    rw [apply, sub?_eq_ofInt?]
  product := by
    apply comesTo_of_apply
    rw [apply, mul?_eq_ofInt?]
  zero_divisor hright := by
    have hzero : right = 0 := Int64.toInt_inj.mp hright
    exact ⟨if_pos hzero, if_pos hzero⟩
  quotient := comesTo_divide
  quotient_overflow := divide_eq_overflow_iff
  remainder := modulo_apply
  negative_exponent := power_apply_of_neg
  natural_exponent := comesTo_power

end Operator
end InfixCalc
