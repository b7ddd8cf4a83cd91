import InfixCalc.Program
import InfixCalc.Proofs.Sequencing
import Mathlib.Data.List.TakeWhile

/-!
# What command lines ask for

Verbosity flags do not matter for what a command line asks for, wherever they
stand.  A report on a file or on the standard input can be asked for in several
ways, and all of them leave the same behind.

* `CommandLine.Padded` : a command line and the same with verbosity flags.
* `CommandLine.AsksFor` : the command that a command line asks for.
* `Program.feedings_agree` : all ways to get the same reports.
-/

namespace InfixCalc
namespace CommandLine

/-- A verbosity flag: `--verbose`, or a dash and one letter `v` or more. -/
inductive RaisesVerbosity : Text → Prop
  | long :
      RaisesVerbosity "--verbose".toList
  | letters (count : Nat) :
      RaisesVerbosity ('-' :: List.replicate (count + 1) 'v')

/-- Arguments, and the same arguments with verbosity flags put anywhere. -/
inductive Padded : List Text → List Text → Prop
  | nil :
      Padded [] []
  | flag {flag : Text} {args padded : List Text} :
      RaisesVerbosity flag →
      Padded args padded →
      Padded args (flag :: padded)
  | arg {arg : Text} {args padded : List Text} :
      Padded args padded →
      Padded (arg :: args) (arg :: padded)

theorem Padded.refl
    (args : List Text) :
    Padded args args := by
  induction args with
  | nil =>
      exact .nil
  | cons arg args ih =>
      exact .arg ih

theorem isVerbosityFlag_of_raises
    {flag : Text}
    (hflag : RaisesVerbosity flag) :
    isVerbosityFlag flag = true := by
  cases hflag with
  | long =>
      decide
  | letters count =>
      simp [isVerbosityFlag]

theorem isVerbosityFlag_of_no_dash
    {arg : Text}
    (hdash : arg.head? ≠ some '-') :
    isVerbosityFlag arg = false := by
  unfold isVerbosityFlag
  split
  · exact absurd rfl hdash
  · rfl

/-- Flags that are put anywhere are all that changes. -/
theorem filter_of_padded
    {args padded : List Text}
    (hpadded : Padded args padded) :
    padded.filter (fun arg => !isVerbosityFlag arg) =
      args.filter fun arg => !isVerbosityFlag arg := by
  induction hpadded with
  | nil =>
      rfl
  | flag hflag _ ih =>
      rw [List.filter_cons_of_neg (by simp [isVerbosityFlag_of_raises hflag]), ih]
  | arg _ ih =>
      rw [List.filter_cons, List.filter_cons, ih]

theorem normalize_of_padded
    {args padded : List Text}
    (hplain : ∀ arg ∈ args, isVerbosityFlag arg = false)
    (hpadded : Padded args padded)
    (program : Text) :
    normalize (program :: padded) =
      program :: padded.filter isVerbosityFlag ++ withCommand args := by
  have hargs : args.filter (fun arg => !isVerbosityFlag arg) = args := by
    rw [List.filter_eq_self]
    intro arg harg
    rw [hplain arg harg, Bool.not_false]
  rw [normalize, filter_of_padded hpadded, hargs]

theorem readArgs_flags
    {flags : List Text}
    (hflags : ∀ flag ∈ flags, isVerbosityFlag flag = true) :
    readArgs flags = .ok ⟨totalVerbosity flags, none⟩ := by
  rw [readArgs, List.dropWhile_eq_nil_iff.mpr hflags, List.takeWhile_eq_self_iff.mpr hflags]

theorem readArgs_append
    {flags : List Text} {name : Text}
    (hflags : ∀ flag ∈ flags, isVerbosityFlag flag = true)
    (hname : isVerbosityFlag name = false)
    (rest : List Text) :
    readArgs (flags ++ name :: rest) =
      (readCommand name rest).map fun command => ⟨totalVerbosity flags, some command⟩ := by
  have hbehind : ¬isVerbosityFlag name = true := by
    simp [hname]
  rw [readArgs, List.takeWhile_append_of_pos hflags, List.dropWhile_append_of_pos hflags,
    List.takeWhile_cons_of_neg hbehind, List.dropWhile_cons_of_neg hbehind, List.append_nil]

/-- A command line asks for a command; if it names none, for a report on the
standard input. -/
def AsksFor (args : List Text) (command : Command) : Prop :=
  ∃ invocation,
    parse (normalize args) = .ok invocation ∧
    invocation.command?.getD (.report .text none) = command

section AskedCommands

variable {args padded : List Text} (program : Text)

theorem mem_filter_isVerbosityFlag
    {flag : Text}
    (hmem : flag ∈ padded.filter isVerbosityFlag) :
    isVerbosityFlag flag = true :=
  (List.mem_filter.mp hmem).2

theorem asksFor_of_padded
    {name : Text} {rest : List Text} {command : Command}
    (hplain : ∀ arg ∈ args, isVerbosityFlag arg = false)
    (hpadded : Padded args padded)
    (hcommand : withCommand args = name :: rest)
    (hname : isVerbosityFlag name = false)
    (hread : readCommand name rest = .ok command) :
    AsksFor (program :: padded) command := by
  refine ⟨⟨totalVerbosity (padded.filter isVerbosityFlag), some command⟩, ?_, rfl⟩
  rw [normalize_of_padded hplain hpadded, hcommand]
  change readArgs (padded.filter isVerbosityFlag ++ name :: rest) = _
  rw [readArgs_append (fun _ => mem_filter_isVerbosityFlag) hname, hread]
  rfl

theorem asksFor_of_flags
    (hpadded : Padded [] padded) :
    AsksFor (program :: padded) (.report .text none) := by
  refine ⟨⟨totalVerbosity (padded.filter isVerbosityFlag), none⟩, ?_, rfl⟩
  rw [normalize_of_padded (by simp) hpadded, withCommand, List.append_nil]
  exact readArgs_flags fun _ => mem_filter_isVerbosityFlag

end AskedCommands

/-- The name of a file that can be given as an argument as it is. -/
structure IsPlainName (file : Text) : Prop where
  ne_nil : file ≠ []
  no_dash : file.head? ≠ some '-'
  no_command :
    file ∉ ["eval".toList, "json".toList, "repl".toList, "help".toList]

/-- The ways to ask for reports on a file. -/
def waysWithFile (file : Text) : Format → List (List Text)
  | .text => [[file], ["eval".toList, file]]
  | .json =>
    [["json".toList, file], ["--json".toList, file], ["-j".toList, file],
     [file, "--json".toList], [file, "-j".toList]]

/-- The ways to ask for reports on the standard input. -/
def waysWithInput : Format → List (List Text)
  | .text => [[], ["eval".toList]]
  | .json => [["--json".toList], ["-j".toList], ["json".toList]]

/-- The name of the command that reports in a format. -/
def commandOf : Format → Text
  | .text => "eval".toList
  | .json => "json".toList

theorem isVerbosityFlag_commandOf
    (format : Format) :
    isVerbosityFlag (commandOf format) = false := by
  cases format <;> decide

theorem readCommand_commandOf
    (format : Format) (args : List Text) :
    readCommand (commandOf format) args =
      (readFile true false none args).map (.report format) := by
  cases format <;> rfl

theorem withCommand_of_notMem
    {first : Text}
    (hlead : first ∉ leadWords)
    (rest : List Text) :
    withCommand (first :: rest) =
      commandOf (if (first :: rest).any isJsonFlag then .json else .text) ::
        (first :: rest).filter fun arg => !isJsonFlag arg := by
  rw [withCommand, if_neg hlead]
  cases (first :: rest).any isJsonFlag <;> rfl

theorem notMem_leadWords_of_isJsonFlag
    {flag : Text}
    (hflag : isJsonFlag flag = true) :
    flag ∉ leadWords := by
  rw [isJsonFlag, Bool.or_eq_true, decide_eq_true_eq, decide_eq_true_eq] at hflag
  rcases hflag with rfl | rfl <;> decide

namespace IsPlainName

variable {file : Text}

theorem isVerbosityFlag_eq
    (hfile : IsPlainName file) :
    isVerbosityFlag file = false :=
  isVerbosityFlag_of_no_dash hfile.no_dash

theorem isJsonFlag_eq
    (hfile : IsPlainName file) :
    isJsonFlag file = false := by
  have hlong : file ≠ "--json".toList := by
    rintro rfl
    exact hfile.no_dash rfl
  have hshort : file ≠ "-j".toList := by
    rintro rfl
    exact hfile.no_dash rfl
  rw [isJsonFlag, decide_eq_false hlong, decide_eq_false hshort, Bool.or_false]

theorem notMem_leadWords
    (hfile : IsPlainName file) :
    file ∉ leadWords := by
  intro hmem
  have hsplit : leadWords =
      ["eval".toList, "json".toList, "repl".toList, "help".toList] ++
        ["--help".toList, "-h".toList, "--version".toList, "-V".toList] := by
    rfl
  rw [hsplit, List.mem_append] at hmem
  rcases hmem with hcommand | hflag
  · exact hfile.no_command hcommand
  · have hdashes : ∀ flag ∈ ["--help".toList, "-h".toList, "--version".toList, "-V".toList],
        flag.head? = some '-' := by
      decide
    exact hfile.no_dash (hdashes file hflag)

theorem argKind_eq
    (hfile : IsPlainName file) :
    argKind file = .file := by
  unfold argKind
  split
  · exact absurd rfl hfile.no_dash
  · exact absurd rfl hfile.no_dash
  · exact absurd rfl hfile.no_dash
  · rfl

theorem readFile_eq
    (hfile : IsPlainName file) :
    readFile true false none [file] = .ok (some file) := by
  simp [readFile, hfile.argKind_eq, hfile.ne_nil]

theorem withCommand_alone
    (hfile : IsPlainName file) :
    withCommand [file] = [commandOf .text, file] := by
  rw [withCommand_of_notMem hfile.notMem_leadWords]
  simp only [List.any_cons, List.any_nil, List.filter_cons, hfile.isJsonFlag_eq]
  rfl

theorem withCommand_flag_first
    (hfile : IsPlainName file)
    {flag : Text}
    (hflag : isJsonFlag flag = true) :
    withCommand [flag, file] = [commandOf .json, file] := by
  rw [withCommand_of_notMem (notMem_leadWords_of_isJsonFlag hflag)]
  simp only [List.any_cons, List.any_nil, List.filter_cons, hfile.isJsonFlag_eq, hflag]
  rfl

theorem withCommand_flag_last
    (hfile : IsPlainName file)
    {flag : Text}
    (hflag : isJsonFlag flag = true) :
    withCommand [file, flag] = [commandOf .json, file] := by
  rw [withCommand_of_notMem hfile.notMem_leadWords]
  simp only [List.any_cons, List.any_nil, List.filter_cons, hfile.isJsonFlag_eq, hflag]
  rfl

/-- Every way to ask for reports on a file has the same normal form. -/
theorem withCommand_eq
    (hfile : IsPlainName file)
    {format : Format} {args : List Text}
    (hway : args ∈ waysWithFile file format) :
    withCommand args = [commandOf format, file] := by
  cases format with
  | text =>
      simp only [waysWithFile, List.mem_cons, List.not_mem_nil, or_false] at hway
      rcases hway with rfl | rfl
      · exact hfile.withCommand_alone
      · rfl
  | json =>
      simp only [waysWithFile, List.mem_cons, List.not_mem_nil, or_false] at hway
      rcases hway with rfl | rfl | rfl | rfl | rfl
      · rfl
      · exact hfile.withCommand_flag_first (by decide)
      · exact hfile.withCommand_flag_first (by decide)
      · exact hfile.withCommand_flag_last (by decide)
      · exact hfile.withCommand_flag_last (by decide)

theorem isVerbosityFlag_of_way
    (hfile : IsPlainName file)
    (format : Format) :
    ∀ args ∈ waysWithFile file format, ∀ arg ∈ args, isVerbosityFlag arg = false := by
  have hname := hfile.isVerbosityFlag_eq
  have heval : isVerbosityFlag "eval".toList = false := by
    decide
  have hjson : isVerbosityFlag "json".toList = false := by
    decide
  have hlong : isVerbosityFlag "--json".toList = false := by
    decide
  have hshort : isVerbosityFlag "-j".toList = false := by
    decide
  cases format <;>
    simp only [waysWithFile, List.forall_mem_cons, List.not_mem_nil, false_implies, implies_true,
      hname, heval, hjson, hlong, hshort, and_self]

theorem asksFor
    (hfile : IsPlainName file)
    {format : Format} {args padded : List Text}
    (hway : args ∈ waysWithFile file format)
    (hpadded : Padded args padded)
    (program : Text) :
    AsksFor (program :: padded) (.report format (some file)) := by
  refine asksFor_of_padded program (hfile.isVerbosityFlag_of_way format args hway) hpadded
    (hfile.withCommand_eq hway) (isVerbosityFlag_commandOf format) ?_
  rw [readCommand_commandOf, hfile.readFile_eq]
  rfl

end IsPlainName

theorem asksFor_of_wayWithInput
    {format : Format} {args padded : List Text}
    (hway : args ∈ waysWithInput format)
    (hpadded : Padded args padded)
    (program : Text) :
    AsksFor (program :: padded) (.report format none) := by
  have hplain : ∀ args ∈ waysWithInput format, ∀ arg ∈ args, isVerbosityFlag arg = false := by
    cases format <;> decide
  have hcommand : ∀ args ∈ waysWithInput format,
      args = [] ∧ format = .text ∨ withCommand args = [commandOf format] := by
    cases format <;> decide
  rcases hcommand args hway with ⟨rfl, rfl⟩ | hcommand
  -- Flags alone do not bring in a command: the default is a report.
  · exact asksFor_of_flags program hpadded
  · refine asksFor_of_padded program (hplain args hway) hpadded hcommand
      (isVerbosityFlag_commandOf format) ?_
    rw [readCommand_commandOf]
    rfl

end CommandLine

namespace Program

open CommandLine

theorem run_of_asksFor
    {args : List Text} {command : Command}
    (hasks : AsksFor args command)
    (world : World) :
    run world args = runCommand world (some command) := by
  obtain ⟨⟨verbosity, command?⟩, hparse, rfl⟩ := hasks
  rw [run, hparse]
  cases command? <;> rfl

/-- A run that gets a content from the file with the given name, or from the
standard input, and is asked in one of the ways there are for reports on it,
with verbosity flags or without. -/
inductive Feeding (format : Format) (file : Text) (content : Bytes) :
    World → List Text → Prop
  | file {world : World} {args padded : List Text} :
      world.file file = .ok content →
      args ∈ waysWithFile file format →
      Padded args padded →
      Feeding format file content world padded
  | input {world : World} {args padded : List Text} :
      world.input = content →
      args ∈ waysWithInput format →
      Padded args padded →
      Feeding format file content world padded

variable {format : Format} {file : Text} {content : Bytes} {source : Text}
variable {world other : World} {args otherArgs : List Text}

/-- What is left behind after reports on a source. -/
def reported (format : Format) (source : Text) : Result :=
  ⟨if (Report.ofSource source).any Report.hasErrors then 1 else 0,
    renderReports format (Report.ofSource source), []⟩

theorem report_of_readText
    {content : Content}
    (hread : readText content = .ok source)
    (format : Format) (file? : Option Text) :
    report format file? content = reported format source := by
  rw [report, hread]
  rfl

theorem run_of_feeding
    (hfile : IsPlainName file)
    (hdecode : decodeText content = .ok source)
    (hfed : Feeding format file content world args)
    (program : Text) :
    run world (program :: args) = reported format source := by
  cases hfed with
  | file hcontent hway hpadded =>
      rw [run_of_asksFor (hfile.asksFor hway hpadded program)]
      refine report_of_readText ?_ format (some file)
      rw [World.source, hcontent]
      exact hdecode
  | input hcontent hway hpadded =>
      rw [run_of_asksFor (asksFor_of_wayWithInput hway hpadded program)]
      refine report_of_readText ?_ format none
      rw [World.source, hcontent]
      exact hdecode

/-- All ways to get reports on a content give the same output and the same exit
code: those of the reports on the text that the content encodes. -/
theorem feedings_agree
    (format : Format) (file : Text) (content : Bytes) (source : Text)
    (world other : World) (args otherArgs : List Text) (program otherProgram : Text)
    (hfile : IsPlainName file)
    (hdecode : decodeText content = .ok source)
    (hfed : Feeding format file content world args)
    (hother : Feeding format file content other otherArgs) :
    (run world (program :: args)).output = (run other (otherProgram :: otherArgs)).output ∧
      (run world (program :: args)).exit = (run other (otherProgram :: otherArgs)).exit ∧
      (run world (program :: args)).output = renderReports format (Report.ofSource source) ∧
      (run world (program :: args)).exit =
        if (Report.ofSource source).any Report.hasErrors then 1 else 0 := by
  rw [run_of_feeding hfile hdecode hfed, run_of_feeding hfile hdecode hother]
  exact ⟨rfl, rfl, rfl, rfl⟩

/-- The flag for JSON may stand behind the file, and verbosity flags anywhere. -/
theorem feedings_agree_flags_last :
    decodeText [51, 32, 43] = .ok "3 +".toList ∧
      (run ⟨[], fun _ => .ok [51, 32, 43]⟩
        ["shunt".toList, "-v".toList, "sums".toList, "-vvv".toList, "-j".toList]).output =
          (run ⟨[51, 32, 43], fun _ => .error .missing⟩
            ["shunt".toList, "json".toList, "--verbose".toList]).output := by
  have hfile : IsPlainName "sums".toList := by
    constructor <;> decide
  have hdecode : decodeText [51, 32, 43] = .ok "3 +".toList := by
    decide
  have hstored :
      Feeding .json "sums".toList [51, 32, 43] ⟨[], fun _ => .ok [51, 32, 43]⟩
        ["-v".toList, "sums".toList, "-vvv".toList, "-j".toList] := by
    have hway : ["sums".toList, "-j".toList] ∈ waysWithFile "sums".toList .json := by
      decide
    exact .file rfl hway (.flag (.letters 0) (.arg (.flag (.letters 2) (.arg .nil))))
  have hpiped :
      Feeding .json "sums".toList [51, 32, 43] ⟨[51, 32, 43], fun _ => .error .missing⟩
        ["json".toList, "--verbose".toList] := by
    have hway : ["json".toList] ∈ waysWithInput .json := by
      decide
    exact .input rfl hway (.arg (.flag .long .nil))
  have hagree := feedings_agree .json "sums".toList [51, 32, 43] "3 +".toList _ _ _ _
    "shunt".toList "shunt".toList hfile hdecode hstored hpiped
  exact ⟨hdecode, hagree.1⟩

end Program
end InfixCalc
