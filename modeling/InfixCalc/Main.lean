import InfixCalc.Program

/-!
# Command line

Reads what a run needs, writes what it leaves behind, and exits with its code.
All decisions are `Program`'s; a session on a terminal is answered line by
line.
-/

namespace InfixCalc
namespace Console

/-- Collects all bytes of a stream. -/
partial def readBytes (stream : IO.FS.Stream) (collected : ByteArray) : IO ByteArray := do
  let chunk ← stream.read 65536
  if chunk.isEmpty then
    return collected
  else
    readBytes stream (collected ++ chunk)

/-- The number of a system error.  Opening a file gives it negated, reading
one does not. -/
def errorNumber (code : UInt32) : UInt32 :=
  min code (0 - code)

/-- Why a file cannot be read. -/
def readError : IO.Error → Program.ReadError
  | .inappropriateType _ code _ =>
    if errorNumber code = 20 then .notDirectory else .directory
  | .invalidArgument _ code _ =>
    if errorNumber code = 36 then .nameTooLong else .missing
  | _ => .missing

/-- The content of a file. -/
def readContent (file : Text) : IO Program.Content := do
  try
    let bytes ← IO.FS.readBinFile (String.ofList file)
    return .ok bytes.data.toList
  catch error =>
    return .error (readError error)

/-- Writes what a run leaves behind and answers its exit code. -/
def leave (result : Program.Result) : IO UInt32 := do
  IO.print (String.ofList result.output)
  for line in result.errors do
    IO.eprintln (String.ofList line)
  return result.exit.toUInt32

/-- Answers the lines that are typed on a terminal. -/
partial def converseOnTerminal (session : Session) : IO UInt32 := do
  IO.print (String.ofList Session.prompt)
  (← IO.getStdout).flush
  let line ← (← IO.getStdin).getLine
  if line.isEmpty then
    return 0
  let answer := session.answer (Program.dropEnding line.toList)
  IO.print (String.ofList (Program.renderEntries answer.entries))
  if answer.exit then
    return 0
  else
    converseOnTerminal answer.session

/-- Runs a command on the files and the standard input. -/
def runCommand (command? : Option CommandLine.Command) : IO UInt32 := do
  let stdin ← IO.getStdin
  match command? with
  | some (.report _ (some file)) =>
    let content ← readContent file
    leave (Program.runCommand ⟨[], fun _ => content⟩ command?)
  | some .converse =>
    if ← stdin.isTty then
      converseOnTerminal .fresh
    else
      leave (Program.converse (← readBytes stdin .empty).data.toList)
  | _ =>
    let input ← readBytes stdin .empty
    leave (Program.runCommand ⟨input.data.toList, fun _ => .error .missing⟩ command?)

/-- Runs the program on its arguments. -/
def start (args : List Text) : IO UInt32 :=
  match CommandLine.parse (CommandLine.normalize args) with
  | .error error => leave (Program.usage error)
  | .ok invocation => runCommand invocation.command?

end Console
end InfixCalc

def main (args : List String) : IO UInt32 :=
  InfixCalc.Console.start ("shunt".toList :: args.map String.toList)
