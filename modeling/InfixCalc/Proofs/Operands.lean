import InfixCalc.Token

/-!
# The operands and the operators of a token list

Both are lists, in the order of the tokens; parentheses belong to neither.
-/

namespace InfixCalc
namespace Token

/-- The values of the operands, in order. -/
def values (tokens : List Token) : List Value :=
  tokens.filterMap value?

/-- The operators, in order. -/
def operators (tokens : List Token) : List Operator :=
  tokens.filterMap operator?

@[simp] theorem values_nil :
    values [] = [] := by
  rfl

@[simp] theorem values_cons_number
    (value : Value) (rest : List Token) :
    values (.number value :: rest) = value :: values rest := by
  rfl

@[simp] theorem values_cons_operator
    (op : Operator) (rest : List Token) :
    values (.operator op :: rest) = values rest := by
  rfl

@[simp] theorem values_cons_opening
    (rest : List Token) :
    values (.opening :: rest) = values rest := by
  rfl

@[simp] theorem values_cons_closing
    (rest : List Token) :
    values (.closing :: rest) = values rest := by
  rfl

@[simp] theorem operators_nil :
    operators [] = [] := by
  rfl

@[simp] theorem operators_cons_number
    (value : Value) (rest : List Token) :
    operators (.number value :: rest) = operators rest := by
  rfl

@[simp] theorem operators_cons_operator
    (op : Operator) (rest : List Token) :
    operators (.operator op :: rest) = op :: operators rest := by
  rfl

@[simp] theorem operators_cons_opening
    (rest : List Token) :
    operators (.opening :: rest) = operators rest := by
  rfl

@[simp] theorem operators_cons_closing
    (rest : List Token) :
    operators (.closing :: rest) = operators rest := by
  rfl

@[simp] theorem values_append
    (first second : List Token) :
    values (first ++ second) = values first ++ values second := by
  exact List.filterMap_append

@[simp] theorem operators_append
    (first second : List Token) :
    operators (first ++ second) = operators first ++ operators second := by
  exact List.filterMap_append

@[simp] theorem values_map_operator
    (found : List Operator) :
    values (found.map .operator) = [] := by
  induction found with
  | nil =>
      rfl
  | cons op rest ih =>
      simp [ih]

@[simp] theorem operators_map_operator
    (found : List Operator) :
    operators (found.map .operator) = found := by
  induction found with
  | nil =>
      rfl
  | cons op rest ih =>
      simp [ih]

end Token
end InfixCalc
