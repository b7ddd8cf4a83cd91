import InfixCalc.Arithmetic
import InfixCalc.Expr.Fold
import InfixCalc.Record

/-!
# Evaluation

Two evaluators share one arithmetic: an expression is evaluated from its
leaves up, and a sequence in reverse Polish order on a stack of values.  Both
work in `EvalM`, which keeps every application of an operator, so that not
only the values of two evaluations can be compared but also what they did.
-/

namespace InfixCalc

/-- An operator applied to two operands. -/
structure Application where
  op : Operator
  left : Value
  right : Value
  deriving DecidableEq, Repr

/-- Evaluation fails with an error and keeps the applications made so far,
the last one first, the failing one included. -/
abbrev EvalM := EStateM EvalError (List Application)

/-- What an evaluation came to: its result, and its applications in order. -/
structure Evaluation where
  result : Except EvalError Value
  applications : List Application

namespace Application

/-- The value of an application. -/
def value (application : Application) : Except EvalError Value :=
  application.op.apply application.left application.right

/-- Makes an application and keeps it. -/
def make (application : Application) : EvalM Value := fun earlier =>
  match application.value with
  | .ok value => .ok value (application :: earlier)
  | .error error => .error error (application :: earlier)

/-- The record of an application that has a value. -/
def record? (application : Application) : Option Record :=
  match application.value with
  | .ok value =>
    some ⟨.trace, Text.ofValue application.left ++ ' ' :: application.op.symbol :: ' ' ::
      Text.ofValue application.right ++ " = ".toList ++ Text.ofValue value⟩
  | .error _ => none

end Application

namespace Evaluation

/-- Runs an evaluation from the start. -/
def run (evaluation : EvalM Value) : Evaluation :=
  match evaluation [] with
  | .ok value applications => ⟨.ok value, applications.reverse⟩
  | .error error applications => ⟨.error error, applications.reverse⟩

/-- The records of an evaluation: every application with its value, and the
token that ended the evaluation because it has no arithmetic. -/
def records (evaluation : Evaluation) : List Record :=
  evaluation.applications.filterMap Application.record? ++
    match evaluation.result with
    | .error (.unknownOperator token) =>
      [⟨.error, "no arithmetic defined for ".toList ++ token.describe⟩]
    | _ => []

end Evaluation

namespace Expr

/-- Evaluates from the leaves up: an operand is its own value, and a node
applies its operator to the values of both subtrees. -/
def evalM (tree : Expr) : EvalM Value :=
  tree.foldM pure fun op left right => Application.make ⟨op, left, right⟩

/-- The evaluation of an expression. -/
def evaluation (tree : Expr) : Evaluation :=
  .run tree.evalM

/-- The value of an expression. -/
def evaluate (tree : Expr) : Except EvalError Value :=
  tree.evaluation.result

end Expr

namespace Rpn

/-- Reads one token: an operand is put on the stack of values, an operator
takes its right and its left operand from there and leaves its result. -/
def evalStep (values : List Value) (token : Token) : EvalM (List Value) :=
  match token with
  | .number value => pure (value :: values)
  | .operator op =>
    match values with
    | right :: left :: rest => do
      let result ← Application.make ⟨op, left, right⟩
      return result :: rest
    | _ => throw (.insufficientOperands op)
  | other => throw (.unknownOperator other)

/-- Exactly one value has to be left. -/
def takeSingle : List Value → EvalM Value
  | [value] => pure value
  | values => throw (.malformedExpression values.length)

/-- The evaluation of a sequence. -/
def evaluation (rpn : Rpn) : Evaluation :=
  .run do
    let values ← rpn.foldlM evalStep []
    takeSingle values

/-- The value of a sequence. -/
def evaluate (rpn : Rpn) : Except EvalError Value :=
  (evaluation rpn).result

end Rpn
end InfixCalc
