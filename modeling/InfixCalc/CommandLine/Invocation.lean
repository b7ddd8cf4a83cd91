import InfixCalc.CommandLine.Normal

/-!
# Invocations

What a command line in normal form asks for: a verbosity and a command, or a
usage error, under which asking for help or for the version counts.

Arguments of a command are read one after the other.  A dash in front marks a
flag, except that a single dash is the name of a file; after `--` everything
is the name of a file.  No file has the empty name, but another error that is
found before the end is reported first, unless it only asks for help.
-/

namespace InfixCalc
namespace CommandLine

/-- Whether reports are written as text or as JSON. -/
inductive Format where
  | text
  | json
  deriving DecidableEq, Repr

/-- What to do. -/
inductive Command where
  /-- Report on a file, or on the standard input if there is none. -/
  | report (format : Format) (file? : Option Text)
  /-- Answer lines. -/
  | converse
  deriving DecidableEq, Repr

/-- Why a command line asks for no command. -/
inductive UsageError where
  | unknownArgument
  | invalidValue
  | invalidSubcommand
  | tooManyValues
  | displayHelp
  | displayVersion
  deriving DecidableEq, Repr

/-- What a command line asks for. -/
structure Invocation where
  verbosity : Nat
  command? : Option Command
  deriving DecidableEq, Repr

/-- The highest verbosity that is told apart. -/
def maxVerbosity : Nat := 255

/-- How much a verbosity flag adds. -/
def verbosityOf (flag : Text) : Nat :=
  if flag = "--verbose".toList then 1 else flag.length - 1

/-- The verbosity of a list of flags. -/
def totalVerbosity (flags : List Text) : Nat :=
  min maxVerbosity (flags.foldr (fun flag total => verbosityOf flag + total) 0)

/-- What an argument is to a command. -/
inductive ArgKind where
  | terminator
  | help
  /-- The help flag with a value, which it does not take. -/
  | helpWithValue
  | unknownFlag
  | file
  deriving DecidableEq, Repr

/-- Sorts an argument in front of the terminator. -/
def argKind : Text → ArgKind
  | ['-', '-'] => .terminator
  | '-' :: '-' :: flag =>
    if flag = "help".toList then .help
    else if "help=".toList.isPrefixOf flag then .helpWithValue
    else .unknownFlag
  | '-' :: c :: _ => if c = 'h' then .help else .unknownFlag
  | _ => .file

/-- Reads the arguments of a command that takes a file if `takesFile`.  After
the terminator `literal` is set, and `file?` is the file that was read. -/
def readFile (takesFile literal : Bool) (file? : Option Text) :
    List Text → Except UsageError (Option Text)
  | [] => if file? = some [] then .error .invalidValue else .ok file?
  | arg :: rest =>
    match if literal then .file else argKind arg with
    | .terminator => readFile takesFile true file? rest
    | .help => if file? = some [] then .error .invalidValue else .error .displayHelp
    | .helpWithValue => .error .tooManyValues
    | .unknownFlag => .error .unknownArgument
    | .file =>
      if takesFile && file?.isNone then
        readFile takesFile literal (some arg) rest
      else
        .error .unknownArgument

/-- The names of commands that help can be asked for. -/
def commandNames : List Text :=
  ["eval".toList, "json".toList, "repl".toList, "help".toList]

/-- Help is given for the program or for one command. -/
def readHelp : List Text → UsageError
  | [] => .displayHelp
  | [name] => if commandNames.contains name then .displayHelp else .invalidSubcommand
  | _ => .invalidSubcommand

/-- Reads the name of a command and its arguments. -/
def readCommand (name : Text) (args : List Text) : Except UsageError Command :=
  if name = "eval".toList then
    (readFile true false none args).map (.report .text)
  else if name = "json".toList then
    (readFile true false none args).map (.report .json)
  else if name = "repl".toList then
    (readFile false false none args).map fun _ => .converse
  else if name = "help".toList then
    .error (readHelp args)
  else if name = "--help".toList ∨ name = "-h".toList then
    .error .displayHelp
  else if name = "--version".toList ∨ name = "-V".toList then
    .error .displayVersion
  else
    .error .invalidSubcommand

/-- Reads what follows the program's name. -/
def readArgs (args : List Text) : Except UsageError Invocation :=
  let verbosity := totalVerbosity (args.takeWhile isVerbosityFlag)
  match args.dropWhile isVerbosityFlag with
  | [] => .ok ⟨verbosity, none⟩
  | name :: rest => (readCommand name rest).map fun command => ⟨verbosity, some command⟩

/-- What a command line in normal form asks for. -/
def parse : List Text → Except UsageError Invocation
  | [] => .ok ⟨0, none⟩
  | _ :: args => readArgs args

/-- The name of the source of a report: a file in quotes, or the standard
input. -/
def sourceName : Option Text → Text
  | some file => '\'' :: file ++ ['\'']
  | none => "stdin".toList

end CommandLine
end InfixCalc
