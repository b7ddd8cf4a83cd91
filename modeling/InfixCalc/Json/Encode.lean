import InfixCalc.Json.Write
import InfixCalc.Report

/-!
# JSON forms

Tokens and expressions are objects with a `type` and, if there is something to
it, a `value`; a sequence is the list of its tokens.  A report is an object
with its fields in a fixed order, and has no `tree` if none was built.
-/

namespace InfixCalc
namespace Json

/-- A JSON string of a given literal. -/
def text (literal : String) : Json :=
  .str literal.toList

/-- An object with a type and a value. -/
def tagged (kind : Text) (value : Json) : Json :=
  .obj [("type".toList, .str kind), ("value".toList, value)]

end Json

/-- The JSON form of an operator is its name. -/
def Operator.toJson (op : Operator) : Json :=
  .str op.name

/-- The JSON form of an operand. -/
def Value.toJson (value : Value) : Json :=
  .int value.toInt

/-- The JSON form of a token. -/
def Token.toJson (token : Token) : Json :=
  match token with
  | .operator op => Json.tagged token.kindName op.toJson
  | .number value => Json.tagged token.kindName (Value.toJson value)
  | .opening | .closing | .bottom => .obj [("type".toList, .str token.kindName)]

/-- The JSON form of an expression. -/
def Expr.toJson : Expr → Json
  | .number value => Json.tagged "Number".toList (Value.toJson value)
  | .binary op left right =>
    Json.tagged "Binary".toList (.obj [
      ("left".toList, left.toJson),
      ("operator".toList, op.toJson),
      ("right".toList, right.toJson)])

/-- The JSON form of a sequence. -/
def Rpn.toJson (rpn : Rpn) : Json :=
  .arr (rpn.map Token.toJson)

/-- The JSON form of an outcome, given the form of its value. -/
def Outcome.toJson {α : Type} (form : α → Json) (outcome : Outcome α) : Json :=
  match outcome with
  | .value found => .obj [("value".toList, form found)]
  | .error message => .obj [("error".toList, .str message)]

namespace Report

/-- The members of a report's form before its tree. -/
def members (report : Report) : List (Text × Json) :=
  [("number".toList, .int report.number),
   ("infix".toList, .str report.expression),
   ("postfix".toList, report.rpn.toJson .str),
   ("postfix_value".toList, report.rpnValue.toJson Value.toJson),
   ("tree_value".toList, report.treeValue.toJson Value.toJson)]

/-- The member of a report's form for its tree. -/
def treeMember (report : Report) : List (Text × Json) :=
  match report.tree? with
  | some tree => [("tree".toList, tree.toJson)]
  | none => []

/-- The JSON form of a report. -/
def toJson (report : Report) : Json :=
  .obj (report.members ++ report.treeMember)

/-- The JSON text of reports, with a line feed at the end. -/
def renderJson (reports : List Report) : Text :=
  Json.write 0 (.arr (reports.map toJson)) ['\n']

end Report
end InfixCalc
