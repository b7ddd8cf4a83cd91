import InfixCalc.Evaluation
import InfixCalc.Parse
import InfixCalc.Report.Outcome

/-!
# Reports on lines

A line is read once and then goes two ways: through its tree, and through its
sequence in reverse Polish order.  The results of the two are kept apart, so
that a line may have a value on one way and an error on the other.
-/

namespace InfixCalc

/-- Everything that is known about a line whose words are all tokens. -/
structure LineReport where
  tokens : List Token
  tree : Except ParseError Expr
  rpn : Except ParseError Rpn
  treeValue : Except Failure Value
  rpnValue : Except Failure Value

namespace LineReport

/-- Goes on after parsing: an error stays, and what was built is evaluated. -/
def evaluateWith {α : Type} (evaluate : α → Except EvalError Value)
    (parsed : Except ParseError α) : Except Failure Value :=
  match parsed with
  | .ok built => (evaluate built).mapError .eval
  | .error error => .error (.parse error)

/-- The report on a list of tokens. -/
def ofTokens (tokens : List Token) : LineReport where
  tokens := tokens
  tree := Expr.ofInfix tokens
  rpn := Rpn.ofInfix tokens
  treeValue := evaluateWith Expr.evaluate (Expr.ofInfix tokens)
  rpnValue := evaluateWith Rpn.evaluate (Rpn.ofInfix tokens)

/-- The report on a line. -/
def ofLine (line : Text) : Except LexError LineReport :=
  (Token.ofLine line).map ofTokens

/-- Whether both ways led to a value. -/
def isOk (report : LineReport) : Bool :=
  report.treeValue.toBool && report.rpnValue.toBool

/-- The line with single spaces between its tokens. -/
def expression (report : LineReport) : Text :=
  Token.renderAll report.tokens

/-- The sequence in reverse Polish order as an outcome. -/
def rpnOutcome (report : LineReport) : Outcome Text :=
  .ofExcept ParseError.message (report.rpn.map Rpn.render)

/-- The value of the sequence as an outcome. -/
def rpnValueOutcome (report : LineReport) : Outcome Value :=
  .ofExcept Failure.message report.rpnValue

/-- The value of the tree as an outcome. -/
def treeValueOutcome (report : LineReport) : Outcome Value :=
  .ofExcept Failure.message report.treeValue

/-- The records of evaluating what was built. -/
def evaluationRecords {α : Type} (evaluation : α → Evaluation)
    (parsed : Except ParseError α) : List Record :=
  match parsed with
  | .ok built => (evaluation built).records
  | .error _ => []

/-- The records of the report on a list of tokens: both passes, then both
evaluations. -/
def recordsOfTokens (tokens : List Token) : List Record :=
  ⟨.debug, "analyzing ".toList ++ Text.ofNat tokens.length ++ " tokens".toList⟩ ::
    (Parse.treeRun tokens).records ++
    (Parse.rpnRun tokens).records ++
    evaluationRecords Expr.evaluation (Expr.ofInfix tokens) ++
    evaluationRecords Rpn.evaluation (Rpn.ofInfix tokens)

/-- The records of the report on a line. -/
def records (line : Text) : List Record :=
  Token.lineRecords line ++
    match Token.ofLine line with
    | .ok tokens => recordsOfTokens tokens
    | .error _ => []

end LineReport
end InfixCalc
