import InfixCalc.Report.Line
import InfixCalc.Text.Lines

/-!
# Reports on sources

A source has a report for each of its lines that is not blank, numbered from
one.  A line with a word that is no token has a report too: it shows the words
of the line, and the same message everywhere.

* `Report.ofSource` : the reports on a source.
* `Report.render`, `Report.renderAll` : their text.
-/

namespace InfixCalc

/-- The numbered report on one line. -/
structure Report where
  number : Nat
  expression : Text
  rpn : Outcome Text
  rpnValue : Outcome Value
  treeValue : Outcome Value
  tree? : Option Expr
  deriving DecidableEq, Repr

namespace Report

/-- The report on a line whose words are all tokens. -/
def ofLineReport (number : Nat) (report : LineReport) : Report where
  number := number
  expression := report.expression
  rpn := report.rpnOutcome
  rpnValue := report.rpnValueOutcome
  treeValue := report.treeValueOutcome
  tree? := report.tree.toOption

/-- The report on a line with a word that is no token. -/
def ofLexError (number : Nat) (line : Text) (error : LexError) : Report where
  number := number
  expression := Text.unwords (Text.words line)
  rpn := .error error.message
  rpnValue := .error error.message
  treeValue := .error error.message
  tree? := none

/-- The report on a line. -/
def ofLine (number : Nat) (line : Text) : Report :=
  match LineReport.ofLine line with
  | .ok report => ofLineReport number report
  | .error error => ofLexError number line error

/-- The lines of a source that have reports. -/
def linesOf (source : Text) : List Text :=
  (Text.lines source).filter fun line => !Text.allBlank line

/-- The reports on lines, numbered from `number`. -/
def ofLines (number : Nat) : List Text → List Report
  | [] => []
  | line :: rest => ofLine number line :: ofLines (number + 1) rest

/-- The reports on a source. -/
def ofSource (source : Text) : List Report :=
  ofLines 1 (linesOf source)

/-- Whether a value is missing in the report. -/
def hasErrors (report : Report) : Bool :=
  report.rpn.isError || report.rpnValue.isError || report.treeValue.isError

/-- The text of a report: four lines, each with its end. -/
def render (report : Report) : Text :=
  "Expression number: ".toList ++ Text.ofNat report.number ++ '\n' ::
  "Infix expression: ".toList ++ report.expression ++ '\n' ::
  "Postfix expression: ".toList ++ report.rpn.render id ++ '\n' ::
  "Postfix eval: ".toList ++ report.rpnValue.render Text.ofValue ++
  " Tree eval: ".toList ++ report.treeValue.render Text.ofValue ++ ['\n']

/-- The text of reports, each followed by an empty line. -/
def renderAll (reports : List Report) : Text :=
  reports.flatMap fun report => report.render ++ ['\n']

/-- The records of the report on a line. -/
def lineRecords (number : Nat) (line : Text) : List Record :=
  LineReport.records line ++
    match LineReport.ofLine line with
    | .ok _ => []
    | .error error =>
      [⟨.warn, "expression ".toList ++ Text.ofNat number ++
        " could not be tokenized: ".toList ++ error.message⟩]

/-- The records of the reports on lines, numbered from `number`. -/
def recordsOfLines (number : Nat) : List Text → List Record
  | [] => []
  | line :: rest => lineRecords number line ++ recordsOfLines (number + 1) rest

/-- The records of the reports on a source. -/
def records (source : Text) : List Record :=
  recordsOfLines 1 (linesOf source)

end Report
end InfixCalc
