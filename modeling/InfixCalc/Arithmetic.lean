import InfixCalc.Token

/-!
# Arithmetic

Operators on 64-bit integers.  Division truncates toward zero, the remainder has
the sign of the dividend, and a power has a natural exponent.  A result that
is out of range is an error and never wraps.

* `Operator.apply` : the value of an operator on two operands, or the error.
-/

namespace InfixCalc

/-- Why an expression has no value. -/
inductive EvalError where
  /-- An operator of a sequence in reverse Polish order finds fewer than two
  values. -/
  | insufficientOperands (op : Operator)
  | divisionByZero
  | moduloByZero
  /-- A sequence in reverse Polish order leaves other than one value. -/
  | malformedExpression (count : Nat)
  /-- A token that is neither an operand nor an operator. -/
  | unknownOperator (token : Token)
  /-- Powers have natural exponents only. -/
  | invalidExponent (exponent : Value)
  | overflow (op : Operator) (left right : Value)
  deriving DecidableEq, Repr

namespace EvalError

/-- The message of an error. -/
def message : EvalError → Text
  | insufficientOperands op =>
    "insufficient operands for operator '".toList ++ op.render ++ ['\'']
  | divisionByZero => "division by zero".toList
  | moduloByZero => "modulo by zero".toList
  | malformedExpression count =>
    "malformed expression: ".toList ++ Text.ofNat count ++
      " values left after evaluation".toList
  | unknownOperator token => "unknown operator: ".toList ++ token.render
  | invalidExponent exponent => "invalid exponent: ".toList ++ Text.ofValue exponent
  | overflow op left right =>
    "integer overflow in ".toList ++ Text.ofValue left ++ [' '] ++ op.render ++
      [' '] ++ Text.ofValue right

end EvalError

namespace Value

/-- The sum, if it fits. -/
def add? (left right : Value) : Option Value :=
  if left.toBitVec.saddOverflow right.toBitVec then none else some (left + right)

/-- The difference, if it fits. -/
def sub? (left right : Value) : Option Value :=
  if left.toBitVec.ssubOverflow right.toBitVec then none else some (left - right)

/-- The product, if it fits. -/
def mul? (left right : Value) : Option Value :=
  if left.toBitVec.smulOverflow right.toBitVec then none else some (left * right)

/-- The truncated quotient by a divisor other than zero, if it fits: only the
least operand divided by `-1` does not. -/
def div? (left right : Value) : Option Value :=
  if left = Int64.minValue ∧ right = -1 then none else some (left / right)

/-- The power with a natural exponent, if it fits.  Every intermediate power
is at most as large as the result, so none of them overflows on its own. -/
def pow? (base : Value) (exponent : Nat) : Option Value :=
  if exponent = 0 then
    some 1
  else if exponent = 1 then
    some base
  else
    (pow? base (exponent / 2)).bind fun half =>
      (mul? half half).bind fun square =>
        if exponent % 2 = 0 then some square else mul? square base
  termination_by exponent
  decreasing_by omega

/-- The power with an exponent that 32 bits do not hold, if it fits: only the
bases zero, one and minus one stay in range then. -/
def longPower? (base exponent : Value) : Option Value :=
  if base = 0 then
    some 0
  else if base = 1 then
    some 1
  else if base = -1 then
    some (if exponent % 2 = 0 then 1 else -1)
  else
    none

/-- The power, if the exponent is not negative and the power fits. -/
def power? (base exponent : Value) : Option Value :=
  if exponent < 0 then
    none
  else if exponent.toNatClampNeg < UInt32.size then
    base.pow? exponent.toNatClampNeg
  else
    base.longPower? exponent

end Value

namespace Operator

/-- The value of an operator on two operands. -/
def apply (op : Operator) (left right : Value) : Except EvalError Value :=
  match op with
  | plus => orOverflow (left.add? right)
  | minus => orOverflow (left.sub? right)
  | times => orOverflow (left.mul? right)
  | divide =>
    if right = 0 then .error .divisionByZero else orOverflow (left.div? right)
  | modulo =>
    if right = 0 then .error .moduloByZero else .ok (left % right)
  | power =>
    match left.power? right with
    | some value => .ok value
    | none =>
      .error (if right < 0 then .invalidExponent right else .overflow op left right)
where
  orOverflow : Option Value → Except EvalError Value
    | some value => .ok value
    | none => .error (.overflow op left right)

end Operator
end InfixCalc
