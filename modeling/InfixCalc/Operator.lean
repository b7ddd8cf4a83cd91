import InfixCalc.Text.Blank

/-!
# Operators

The six binary operators, their symbols and their ranks.  An operator of a
higher rank binds tighter: sums below products below powers.
-/

namespace InfixCalc

/-- A binary arithmetic operator. -/
inductive Operator where
  | plus
  | minus
  | times
  | divide
  | modulo
  | power
  deriving DecidableEq, Repr

namespace Operator

/-- Every operator, in the order of the symbol table. -/
def all : List Operator :=
  [plus, minus, times, divide, modulo, power]

/-- How tightly an operator binds. -/
def rank : Operator → Nat
  | plus | minus => 1
  | times | divide | modulo => 2
  | power => 3

/-- The character an operator is written with. -/
def symbol : Operator → Char
  | plus => '+'
  | minus => '-'
  | times => '*'
  | divide => '/'
  | modulo => '%'
  | power => '^'

/-- The text of an operator is its symbol. -/
def render (op : Operator) : Text :=
  [op.symbol]

/-- The name of an operator, in records and in JSON. -/
def name : Operator → Text
  | plus => "Plus".toList
  | minus => "Minus".toList
  | times => "Times".toList
  | divide => "Div".toList
  | modulo => "Mod".toList
  | power => "Power".toList

theorem mem_all (op : Operator) : op ∈ all := by
  cases op <;> decide

theorem rank_pos (op : Operator) : 0 < op.rank := by
  cases op <;> decide

theorem rank_le_three (op : Operator) : op.rank ≤ 3 := by
  cases op <;> decide

end Operator
end InfixCalc
