import InfixCalc.Text.Blank

/-!
# Normal form of command lines

A command line starts with the program's name.  Its normal form has the
verbosity flags next, wherever they stood, then the name of a command, then
the arguments of the command.  A command line without such a name means the
command `eval`, or `json` if one of its arguments asks for JSON.
-/

namespace InfixCalc
namespace CommandLine

/-- An argument that only raises the verbosity: `--verbose`, or a dash and one
letter `v` or more. -/
def isVerbosityFlag : Text → Bool
  | '-' :: letters =>
    (!letters.isEmpty && letters.all (· = 'v')) || letters = "-verbose".toList
  | _ => false

/-- An argument that asks for JSON. -/
def isJsonFlag (arg : Text) : Bool :=
  arg = "--json".toList || arg = "-j".toList

/-- The arguments that a command line in normal form may have first. -/
def leadWords : List Text :=
  ["eval".toList, "json".toList, "repl".toList, "help".toList, "--help".toList,
   "-h".toList, "--version".toList, "-V".toList]

/-- Puts the name of a command in front if it is missing. -/
def withCommand : List Text → List Text
  | [] => []
  | args@(first :: _) =>
    if first ∈ leadWords then
      args
    else
      (if args.any isJsonFlag then "json".toList else "eval".toList) ::
        args.filter fun arg => !isJsonFlag arg

/-- The normal form of a command line. -/
def normalize : List Text → List Text
  | [] => []
  | program :: args =>
    program :: args.filter isVerbosityFlag ++
      withCommand (args.filter fun arg => !isVerbosityFlag arg)

end CommandLine
end InfixCalc
