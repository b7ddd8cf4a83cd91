import InfixCalc.Expr.Outline
import InfixCalc.Report.Line

/-!
# Interactive sessions

A session answers one line at a time.  A line that starts with a colon is a
command, a blank line has no answer, and every other line is an expression.
The only thing a session remembers is whether trees are shown.
-/

namespace InfixCalc

/-- The state of a session. -/
structure Session where
  showTree : Bool
  deriving DecidableEq, Repr

namespace Session

/-- The answer to a line: the entries to print, whether the session ends, and
its state afterwards. -/
structure Answer where
  entries : List Text
  exit : Bool
  session : Session
  deriving DecidableEq, Repr

/-- A session at its start. -/
def fresh : Session := ⟨false⟩

/-- What stands in front of a line that is typed. -/
def prompt : Text :=
  "shunt> ".toList

/-- The commands that end a session. -/
def exitCommands : List Text :=
  [":q".toList, ":quit".toList, ":exit".toList]

/-- The answer to a command. -/
def answerCommand (session : Session) (command : Text) : Answer :=
  if command = ":help".toList then
    ⟨["commands: :help, :tree, :quit".toList,
      "note: separate every number, operator and parenthesis with spaces".toList],
      false, session⟩
  else if exitCommands.contains command then
    ⟨[], true, session⟩
  else if command = ":tree".toList then
    ⟨[if session.showTree then "tree printing off".toList else "tree printing on".toList],
      false, ⟨!session.showTree⟩⟩
  else
    ⟨["error: unknown command '".toList ++ command ++ ['\'']], false, session⟩

/-- The entry with the outline of the tree, if there is one. -/
def outlineEntry (report : LineReport) : List Text :=
  match report.tree with
  | .ok tree => [tree.outline 2]
  | .error _ => []

/-- The entries with the values: one if both ways agree. -/
def valueEntries (report : LineReport) : List Text :=
  if report.rpnValueOutcome = report.treeValueOutcome then
    [report.rpnValueOutcome.render Text.ofValue]
  else
    ["postfix eval: ".toList ++ report.rpnValueOutcome.render Text.ofValue,
     "tree eval: ".toList ++ report.treeValueOutcome.render Text.ofValue]

/-- The entries for an expression. -/
def expressionEntries (showTree : Bool) (line : Text) : List Text :=
  match LineReport.ofLine line with
  | .error error => ["error: ".toList ++ error.message]
  | .ok report =>
    ("postfix: ".toList ++ report.rpnOutcome.render id) ::
      (if showTree then outlineEntry report else []) ++ valueEntries report

/-- What a line is to a session. -/
inductive Kind where
  | blank
  | command (text : Text)
  | expression (text : Text)
  deriving DecidableEq, Repr

/-- Sorts a line by its trimmed text. -/
def kindOf (line : Text) : Kind :=
  match Text.trim line with
  | [] => .blank
  | ':' :: rest => .command (':' :: rest)
  | trimmed => .expression trimmed

/-- The answer to a line. -/
def answer (session : Session) (line : Text) : Answer :=
  match kindOf line with
  | .blank => ⟨[], false, session⟩
  | .command command => session.answerCommand command
  | .expression expression =>
    ⟨expressionEntries session.showTree expression, false, session⟩

/-- The answers to lines, all of them, also after an exit. -/
def answers (session : Session) : List Text → List Answer
  | [] => []
  | line :: rest =>
    session.answer line :: (session.answer line).session.answers rest

/-- The records of the answer to a line. -/
def records (line : Text) : List Record :=
  match kindOf line with
  | .expression expression => LineReport.records expression
  | _ => []

end Session
end InfixCalc
