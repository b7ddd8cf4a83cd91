import InfixCalc.Token

/-!
# Errors of parsing
-/

namespace InfixCalc

/-- Why a token list has no tree or no sequence in reverse Polish order. -/
inductive ParseError where
  /-- A closing parenthesis without an opening one, or an opening one that is
  never closed. -/
  | unbalancedParenthesis
  /-- An operator that is reduced before the end without two operands. -/
  | missingOperand (op : Operator)
  /-- Parentheses that are nested deeper than the limit. -/
  | nestingTooDeep (limit : Nat)
  /-- A tree with more levels than the limit. -/
  | treeTooDeep (limit : Nat)
  /-- No operand and no operator at all. -/
  | emptyExpression
  /-- A token that never belongs into an expression. -/
  | unexpectedToken (token : Token)
  deriving DecidableEq, Repr

namespace ParseError

/-- The message of an error. -/
def message : ParseError → Text
  | unbalancedParenthesis => "unbalanced parenthesis".toList
  | missingOperand op =>
    "missing operand for operator '".toList ++ op.render ++ ['\'']
  | nestingTooDeep limit =>
    "maximum nesting depth of ".toList ++ Text.ofNat limit ++ " exceeded".toList
  | treeTooDeep limit =>
    "expression tree deeper than ".toList ++ Text.ofNat limit ++ " levels".toList
  | emptyExpression => "empty expression".toList
  | unexpectedToken token => "unexpected token: ".toList ++ token.render

end ParseError
end InfixCalc
