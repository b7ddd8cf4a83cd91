import InfixCalc.Token

/-!
# Expressions

An expression is a binary tree whose leaves are operands and whose nodes are
operators.

* `Expr.render` : the infix text, with every node in parentheses.
* `Expr.toRpn` : the tokens in reverse Polish order, operands before their
  operator.
-/

namespace InfixCalc

/-- An expression. -/
inductive Expr where
  | number (value : Value)
  | binary (op : Operator) (left right : Expr)
  deriving DecidableEq, Repr

/-- A token sequence that is meant in reverse Polish order. -/
abbrev Rpn := List Token

namespace Expr

/-- The infix text of an expression. -/
def render : Expr → Text
  | number value => Text.ofValue value
  | binary op left right =>
    '(' :: left.render ++ ' ' :: op.symbol :: ' ' :: right.render ++ [')']

/-- The expression in reverse Polish order. -/
def toRpn : Expr → Rpn
  | number value => [.number value]
  | binary op left right => left.toRpn ++ right.toRpn ++ [.operator op]

/-- The number of nodes on a longest path from the root to a leaf. -/
def levels : Expr → Nat
  | number _ => 1
  | binary _ left right => 1 + max left.levels right.levels

theorem toRpn_ne_nil (tree : Expr) : tree.toRpn ≠ [] := by
  cases tree <;> simp [toRpn]

end Expr

namespace Rpn

/-- The text of a sequence: its tokens with single spaces between them. -/
def render (rpn : Rpn) : Text :=
  Token.renderAll rpn

end Rpn
end InfixCalc
