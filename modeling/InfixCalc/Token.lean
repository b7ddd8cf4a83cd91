import InfixCalc.Operator
import InfixCalc.Text.Decimal
import InfixCalc.Text.Words

/-!
# Tokens

A token of an expression is an operator, a parenthesis or an operand.  One
more token, `bottom`, marks the bottom of an operator stack; no text is ever
read as it.
-/

namespace InfixCalc

/-- A token of an expression. -/
inductive Token where
  /-- A binary operator. -/
  | operator (op : Operator)
  /-- An opening parenthesis. -/
  | opening
  /-- A closing parenthesis. -/
  | closing
  /-- The mark at the bottom of an operator stack. -/
  | bottom
  /-- An operand. -/
  | number (value : Value)
  deriving DecidableEq, Repr

namespace Token

/-- The rank of a token: parentheses and the bottom mark rank below every
operator, and an operand has no rank. -/
def rank? : Token → Option Nat
  | operator op => some op.rank
  | opening | closing | bottom => some 0
  | number _ => none

/-- Whether the token is an operand. -/
def isOperand : Token → Bool
  | number _ => true
  | _ => false

/-- The value of an operand. -/
def value? : Token → Option Value
  | number value => some value
  | _ => none

/-- The operator of an operator token. -/
def operator? : Token → Option Operator
  | operator op => some op
  | _ => none

/-- The text of a token. -/
def render : Token → Text
  | operator op => op.render
  | opening => ['(']
  | closing => [')']
  | bottom => ['|']
  | number value => Text.ofValue value

/-- The name of a token's kind. -/
def kindName : Token → Text
  | operator _ => "Operator".toList
  | opening => "Open".toList
  | closing => "Close".toList
  | bottom => "Nil".toList
  | number _ => "Number".toList

/-- The text of a token in records: its kind, with the operator or the value
in parentheses. -/
def describe (token : Token) : Text :=
  match token with
  | operator op => token.kindName ++ ['('] ++ op.name ++ [')']
  | number value => token.kindName ++ ['('] ++ Text.ofValue value ++ [')']
  | opening | closing | bottom => token.kindName

/-- The texts of tokens with single spaces between them. -/
def renderAll (tokens : List Token) : Text :=
  Text.unwords (tokens.map render)

end Token
end InfixCalc
