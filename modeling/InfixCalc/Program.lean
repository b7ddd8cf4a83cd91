import InfixCalc.CommandLine.Invocation
import InfixCalc.Json.Encode
import InfixCalc.Program.Source
import InfixCalc.Session
import InfixCalc.Text.Backspace

/-!
# The program

The program as a function from its arguments and its world, the standard input
and the files, to what it writes and to its exit code: zero for success, one
for reports with errors, two for a usage error or for input that cannot be
read, and a code of its own for a line that backspaces leave without a text.
-/

namespace InfixCalc
namespace Program

/-- What the program can read. -/
structure World where
  input : Bytes
  file : Text → Content

/-- What the program leaves behind. -/
structure Result where
  exit : Nat
  output : Text
  errors : List Text
  deriving DecidableEq, Repr

/-- The text of reports in a format. -/
def renderReports (format : CommandLine.Format) (reports : List Report) : Text :=
  match format with
  | .text => Report.renderAll reports
  | .json => Report.renderJson reports

/-- Reports on a source. -/
def report (format : CommandLine.Format) (file? : Option Text) (content : Content) :
    Result :=
  match readText content with
  | .error error =>
    ⟨2, [], ["error: cannot read ".toList ++ CommandLine.sourceName file? ++
      ": ".toList ++ error.message]⟩
  | .ok source =>
    let reports := Report.ofSource source
    ⟨if reports.any Report.hasErrors then 1 else 0, renderReports format reports, []⟩

/-- The entries of an answer, a line each. -/
def renderEntries (entries : List Text) : Text :=
  entries.flatMap fun entry => entry ++ ['\n']

/-- Cuts bytes behind every line feed. -/
def byteLines : Bytes → List Bytes
  | [] => []
  | byte :: rest =>
    if byte = 10 then
      [byte] :: byteLines rest
    else
      match byteLines rest with
      | [] => [[byte]]
      | line :: later => (byte :: line) :: later

/-- The text of a line without its ending. -/
def dropEnding (line : Text) : Text :=
  match line.reverse with
  | '\n' :: '\r' :: opened => opened.reverse
  | '\n' :: opened => opened.reverse
  | _ => line

/-- The exit code after a line that has no edited form. -/
def brokenLineCode : Nat := 101

/-- Answers lines until one ends the session or cannot be taken as a text.
Backspaces are applied to a line before it is answered. -/
def converseFrom (session : Session) : List Bytes → Result
  | [] => ⟨0, [], []⟩
  | line :: rest =>
    match decodeText line with
    | .error error => ⟨2, [], ["error: repl failed: ".toList ++ error.message]⟩
    | .ok text =>
      match Text.applyBackspaces? (dropEnding text) with
      | none => ⟨brokenLineCode, [], []⟩
      | some edited =>
        let answer := session.answer edited
        if answer.exit then
          ⟨0, renderEntries answer.entries, []⟩
        else
          let later := converseFrom answer.session rest
          ⟨later.exit, renderEntries answer.entries ++ later.output, later.errors⟩

/-- Answers the lines of the standard input. -/
def converse (input : Bytes) : Result :=
  converseFrom .fresh (byteLines input)

/-- The name and the version of the program. -/
def version : Text :=
  "shunt 0.1.0".toList

/-- What is left behind instead of running a command. -/
def usage : CommandLine.UsageError → Result
  | .displayHelp => ⟨0, [], []⟩
  | .displayVersion => ⟨0, version ++ ['\n'], []⟩
  | _ => ⟨2, [], []⟩

/-- The content that a report is about. -/
def World.source (world : World) : Option Text → Content
  | none => .ok world.input
  | some file => world.file file

/-- Runs a command; without one the standard input is reported on. -/
def runCommand (world : World) : Option CommandLine.Command → Result
  | none => report .text none (world.source none)
  | some (.report format file?) => report format file? (world.source file?)
  | some .converse => converse world.input

/-- Runs the program on its arguments, its own name first. -/
def run (world : World) (args : List Text) : Result :=
  match CommandLine.parse (CommandLine.normalize args) with
  | .error error => usage error
  | .ok invocation => runCommand world invocation.command?

end Program
end InfixCalc
