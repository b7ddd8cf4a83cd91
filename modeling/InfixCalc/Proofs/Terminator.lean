import InfixCalc.Proofs.NormalForm

/-!
# Arguments behind the terminator

Behind the first `--` every argument is meant as it is written: none is a flag, and
a single one is the name of a file.  The normal form sorts flags before arguments
are read, and it looks for them behind the terminator too: it moves verbosity flags
away from there, and where no command is named it takes out the flags for JSON.  So
arguments behind the terminator are left alone just when none of them looks like a
flag that is sorted.

* `LeftAlone` : arguments behind the terminator are only what they are written as.
* `normalize_terminated` : the normal form up to the terminator and behind it.
* `parse_terminated` : what a command line with a terminator asks for.
* `leftAlone_iff` : the arguments that are left alone.
-/

namespace InfixCalc
namespace CommandLine

/-- The argument behind which no flag is meant. -/
def terminator : Text :=
  "--".toList

/-- The arguments say what to do: a lead word comes first, but for verbosity
flags. -/
inductive NamesCommand : List Text → Prop
  | lead {name : Text} {args : List Text} :
      name ∈ leadWords →
      NamesCommand (name :: args)
  | flag {flag : Text} {args : List Text} :
      RaisesVerbosity flag →
      NamesCommand args →
      NamesCommand (flag :: args)

/-- What a command line asks for apart from verbosity and file: reports in a
format, or answers. -/
def Command.format? : Command → Option Format
  | .report format _ => some format
  | .converse => none

/-- Arguments, without verbosity flags, that ask for reports in a format and name
no file. -/
inductive AsksForReports : Format → List Text → Prop
  | eval :
      AsksForReports .text ["eval".toList]
  | json :
      AsksForReports .json ["json".toList]
  | none :
      AsksForReports .text []
  | flags {flag : Text} {flags : List Text} :
      (∀ arg ∈ flag :: flags, isJsonFlag arg = true) →
      AsksForReports .json (flag :: flags)

/-- The arguments `after` the terminator are left alone: they end the normal form as
they are, they have no say in the verbosity and in the command but for its file, and
one alone is the file, unless it is empty, if no file is named before. -/
structure LeftAlone (program : Text) (before after : List Text) : Prop where
  verbatim :
    ∃ front,
      normalize (program :: (before ++ terminator :: after)) =
        program :: (front ++ terminator :: after)
  decided :
    ∀ invocation,
      parse (normalize (program :: (before ++ terminator :: after))) = .ok invocation →
      ∃ earlier,
        parse (normalize (program :: (before ++ [terminator]))) = .ok earlier ∧
        invocation.verbosity = earlier.verbosity ∧
        invocation.command?.map Command.format? = earlier.command?.map Command.format?
  file :
    ∀ file format flags others,
      after = [file] →
      file ≠ [] →
      Interleaved flags others before →
      AsksForReports format others →
      parse (normalize (program :: (before ++ terminator :: after))) =
        .ok ⟨min 255 (timesRaised flags), some (.report format (some file))⟩

theorem not_raises_terminator :
    ¬RaisesVerbosity terminator :=
  isVerbosityFlag_eq_false_iff.mp (by decide)

theorem isJsonFlag_terminator :
    isJsonFlag terminator = false := by
  decide

theorem terminator_notMem_leadWords :
    terminator ∉ leadWords := by
  decide

theorem terminator_ne_commandOf
    (format : Format) :
    terminator ≠ commandOf format := by
  cases format <;> decide

theorem commandOf_mem_leadWords
    (format : Format) :
    commandOf format ∈ leadWords := by
  cases format <;> decide

namespace Interleaved

variable {flags others args : List Text}

theorem append
    {moreFlags moreOthers more : List Text}
    (hargs : Interleaved flags others args)
    (hmore : Interleaved moreFlags moreOthers more) :
    Interleaved (flags ++ moreFlags) (others ++ moreOthers) (args ++ more) := by
  induction hargs with
  | nil =>
      exact hmore
  | flag hflag _ ih =>
      exact .flag hflag ih
  | other harg _ ih =>
      exact .other harg ih

theorem of_plain
    (hplain : ∀ arg ∈ args, ¬RaisesVerbosity arg) :
    Interleaved [] args args := by
  induction args with
  | nil =>
      exact .nil
  | cons arg args ih =>
      rw [List.forall_mem_cons] at hplain
      exact .other hplain.1 (ih hplain.2)

theorem others_sublist
    (hargs : Interleaved flags others args) :
    others.Sublist args := by
  rw [← hargs.filter_eq.2]
  exact List.filter_sublist

theorem others_eq_iff
    (hargs : Interleaved flags others args) :
    others = args ↔ ∀ arg ∈ args, ¬RaisesVerbosity arg := by
  constructor
  · rintro rfl
    exact hargs.not_raises
  · intro hplain
    rw [← hargs.filter_eq.2, (filter_others hplain).2]

/-- A command is named just when the first argument that is no verbosity flag is a
lead word. -/
theorem namesCommand_iff
    (hargs : Interleaved flags others args) :
    NamesCommand args ↔ ∃ name rest, others = name :: rest ∧ name ∈ leadWords := by
  induction hargs with
  | nil =>
      constructor
      · rintro ⟨⟩
      · rintro ⟨_, _, ⟨⟩, _⟩
  | flag hflag _ ih =>
      rw [← ih]
      constructor
      · intro hnames
        cases hnames with
        | lead hlead =>
            exact absurd hflag (not_raises_of_mem_leadWords hlead)
        | flag _ hnames =>
            exact hnames
      · exact .flag hflag
  | other harg _ _ =>
      constructor
      · intro hnames
        cases hnames with
        | lead hlead =>
            exact ⟨_, _, rfl, hlead⟩
        | flag hflag _ =>
            exact absurd hflag harg
      · rintro ⟨name, rest, hothers, hlead⟩
        cases hothers
        exact .lead hlead

end Interleaved

section Lists

variable {α : Type}

/-- A list that is cut at its first mark, and at some mark with no less behind it, is
cut at the same place. -/
theorem eq_of_append_cons
    {mark : α} {front other kept after : List α}
    (hfront : mark ∉ front)
    (hlength : kept.length ≤ after.length)
    (hequal : front ++ mark :: kept = other ++ mark :: after) :
    kept = after := by
  rcases List.append_eq_append_iff.mp hequal with ⟨more, -, hmore⟩ | ⟨more, rfl, hmore⟩
  · cases more with
    | nil =>
        exact (List.cons.inj hmore).2
    | cons first more =>
        have hlonger := congrArg List.length hmore
        simp only [List.cons_append, List.length_cons, List.length_append] at hlonger
        omega
  · cases more with
    | nil =>
        exact (List.cons.inj hmore).2.symm
    | cons first more =>
        have hmark : mark = first := (List.cons.inj hmore).1
        exact absurd (by simp [hmark]) hfront

theorem filter_eq_iff_of_sublist
    {keep : α → Bool} {items whole : List α}
    (hitems : items.Sublist whole) :
    items.filter keep = whole ↔ items = whole ∧ ∀ item ∈ whole, keep item = true := by
  constructor
  · intro hfilter
    have hlength : whole.length ≤ items.length := by
      rw [← hfilter]
      exact List.length_filter_le _ _
    have hsame : items = whole := hitems.eq_of_length_le hlength
    rw [hsame] at hfilter
    exact ⟨hsame, List.filter_eq_self.mp hfilter⟩
  · rintro ⟨rfl, hkeep⟩
    exact List.filter_eq_self.mpr hkeep

end Lists

section NormalForms

variable {flags others moreFlags behind before after : List Text}

theorem normalize_append_terminator
    (hbefore : Interleaved flags others before)
    (hafter : Interleaved moreFlags behind after)
    (program : Text) :
    normalize (program :: (before ++ terminator :: after)) =
      program :: (flags ++ moreFlags ++ withCommand (others ++ terminator :: behind)) :=
  normalize_of_interleaved
    (hbefore.append (.other not_raises_terminator hafter)) program

/-- Where a command is named, nothing but verbosity flags is moved. -/
theorem withCommand_of_named
    (hbefore : Interleaved flags others before)
    (hnamed : NamesCommand before)
    (behind : List Text) :
    withCommand (others ++ terminator :: behind) = others ++ terminator :: behind := by
  obtain ⟨name, rest, rfl, hlead⟩ := hbefore.namesCommand_iff.mp hnamed
  exact withCommand_of_mem hlead _

/-- Where no command is named, the flags for JSON are taken out in front of the
terminator and behind it. -/
theorem withCommand_of_unnamed
    (hbefore : Interleaved flags others before)
    (hunnamed : ¬NamesCommand before)
    (behind : List Text) :
    withCommand (others ++ terminator :: behind) =
      commandOf (if (others ++ behind).any isJsonFlag then .json else .text) ::
        (others.filter (fun arg => !isJsonFlag arg) ++
          terminator :: behind.filter fun arg => !isJsonFlag arg) := by
  have hany : (others ++ terminator :: behind).any isJsonFlag =
      (others ++ behind).any isJsonFlag := by
    rw [List.any_append, List.any_append, List.any_cons, isJsonFlag_terminator, Bool.false_or]
  have hfilter : (others ++ terminator :: behind).filter (fun arg => !isJsonFlag arg) =
      others.filter (fun arg => !isJsonFlag arg) ++
        terminator :: behind.filter fun arg => !isJsonFlag arg := by
    rw [List.filter_append, List.filter_cons_of_pos (by rw [isJsonFlag_terminator, Bool.not_false])]
  rw [← hany, ← hfilter]
  cases others with
  | nil =>
      exact withCommand_of_notMem terminator_notMem_leadWords behind
  | cons name rest =>
      have hlead : name ∉ leadWords := by
        intro hlead
        exact hunnamed (hbefore.namesCommand_iff.mpr ⟨name, rest, rfl, hlead⟩)
      exact withCommand_of_notMem hlead _

/-- The normal form up to the terminator and behind it, where arguments may be
missing: all are there just when none is a verbosity flag, and none a flag for JSON
unless a command is named. -/
theorem normalize_terminated
    (hfirst : terminator ∉ before)
    (program : Text) (after : List Text) :
    ∃ front kept,
      normalize (program :: (before ++ terminator :: after)) =
        program :: (front ++ terminator :: kept) ∧
      terminator ∉ front ∧
      kept.Sublist after ∧
      (kept = after ↔
        (∀ arg ∈ after, ¬RaisesVerbosity arg) ∧
          (NamesCommand before ∨ ∀ arg ∈ after, isJsonFlag arg = false)) := by
  obtain ⟨flags, others, hbefore⟩ := Interleaved.exists_of_args before
  obtain ⟨moreFlags, behind, hafter⟩ := Interleaved.exists_of_args after
  have hflags : terminator ∉ flags ++ moreFlags := by
    intro hmem
    rcases List.mem_append.mp hmem with hmem | hmem
    · exact not_raises_terminator (hbefore.raises _ hmem)
    · exact not_raises_terminator (hafter.raises _ hmem)
  have hothers : terminator ∉ others := fun hmem => hfirst (hbefore.others_sublist.subset hmem)
  rw [normalize_append_terminator hbefore hafter]
  by_cases hnamed : NamesCommand before
  · refine ⟨flags ++ moreFlags ++ others, behind, ?_, ?_, hafter.others_sublist, ?_⟩
    · rw [withCommand_of_named hbefore hnamed, List.append_assoc _ others]
    · exact List.not_mem_append hflags hothers
    · rw [hafter.others_eq_iff]
      exact ⟨fun hplain => ⟨hplain, Or.inl hnamed⟩, fun hboth => hboth.1⟩
  · refine ⟨flags ++ moreFlags ++
      commandOf (if (others ++ behind).any isJsonFlag then .json else .text) ::
        others.filter fun arg => !isJsonFlag arg,
      behind.filter fun arg => !isJsonFlag arg, ?_, ?_,
      List.filter_sublist.trans hafter.others_sublist, ?_⟩
    · rw [withCommand_of_unnamed hbefore hnamed, List.append_assoc _ (_ :: _), List.cons_append]
    · refine List.not_mem_append hflags (List.not_mem_cons_of_ne_of_not_mem ?_ ?_)
      · exact terminator_ne_commandOf _
      · exact fun hmem => hothers (List.mem_filter.mp hmem).1
    · rw [filter_eq_iff_of_sublist hafter.others_sublist, hafter.others_eq_iff]
      simp only [hnamed, false_or, Bool.not_eq_true']

/-- If the arguments behind the terminator are kept, then what stands before decides
the rest of the normal form. -/
theorem exists_normalize_of_kept
    (hbefore : Interleaved flags others before)
    (program : Text) :
    ∃ name args,
      name ∈ leadWords ∧
      (∀ format, AsksForReports format others → name = commandOf format ∧ args = []) ∧
      ∀ after,
        (∀ arg ∈ after, ¬RaisesVerbosity arg) →
        (NamesCommand before ∨ ∀ arg ∈ after, isJsonFlag arg = false) →
        normalize (program :: (before ++ terminator :: after)) =
          program :: (flags ++ name :: (args ++ terminator :: after)) := by
  by_cases hnamed : NamesCommand before
  · obtain ⟨name, rest, rfl, hlead⟩ := hbefore.namesCommand_iff.mp hnamed
    refine ⟨name, rest, hlead, ?_, ?_⟩
    · intro format hasks
      cases hasks with
      | eval =>
          exact ⟨rfl, rfl⟩
      | json =>
          exact ⟨rfl, rfl⟩
      | flags hjson =>
          exact absurd hlead (notMem_leadWords_of_isJsonFlag (List.forall_mem_cons.mp hjson).1)
    · intro after hplain _
      rw [normalize_append_terminator hbefore (.of_plain hplain), List.append_nil,
        withCommand_of_named hbefore hnamed, List.cons_append]
  · refine ⟨commandOf (if others.any isJsonFlag then .json else .text),
      others.filter fun arg => !isJsonFlag arg, commandOf_mem_leadWords _, ?_, ?_⟩
    · have hlead : ∀ format, others ≠ [commandOf format] := by
        rintro format rfl
        exact hnamed (hbefore.namesCommand_iff.mpr ⟨_, _, rfl, commandOf_mem_leadWords format⟩)
      intro format hasks
      cases hasks with
      | eval =>
          exact absurd rfl (hlead .text)
      | json =>
          exact absurd rfl (hlead .json)
      | none =>
          exact ⟨rfl, rfl⟩
      | @flags flag rest hjson =>
          have hany : (flag :: rest).any isJsonFlag = true :=
            List.any_eq_true.mpr ⟨flag, List.mem_cons_self, hjson flag List.mem_cons_self⟩
          rw [hany, List.filter_eq_nil_iff]
          refine ⟨rfl, ?_⟩
          intro arg hmem
          simp [hjson arg hmem]
    · intro after hplain hjson
      have hjson := hjson.resolve_left hnamed
      have hnone : after.any isJsonFlag = false := by
        simpa using hjson
      have hall : after.filter (fun arg => !isJsonFlag arg) = after := by
        simpa using hjson
      rw [normalize_append_terminator hbefore (.of_plain hplain), List.append_nil,
        withCommand_of_unnamed hbefore hnamed, List.any_append, hnone, Bool.or_false, hall]

end NormalForms

section Reading

variable {takesFile literal : Bool} {file? found : Option Text} {args more : List Text}

/-- No command is read with an empty file. -/
theorem file_ne_nil_of_readFile
    (hread : readFile takesFile literal file? args = .ok found) :
    file? ≠ some [] := by
  induction args generalizing literal with
  | nil =>
      rintro rfl
      simp [readFile] at hread
  | cons arg args ih =>
      rintro rfl
      rw [readFile] at hread
      split at hread
      · exact ih hread rfl
      · simp at hread
      · cases hread
      · cases hread
      · simp at hread

/-- What can be read up to some argument can be read without the later ones. -/
theorem readFile_of_append
    (hread : readFile takesFile literal file? (args ++ more) = .ok found) :
    ∃ earlier, readFile takesFile literal file? args = .ok earlier := by
  induction args generalizing literal file? with
  | nil =>
      exact ⟨file?, if_neg (file_ne_nil_of_readFile hread)⟩
  | cons arg args ih =>
      rw [List.cons_append, readFile] at hread
      rw [readFile]
      split at hread
      · exact ih hread
      · split at hread <;> cases hread
      · cases hread
      · cases hread
      · split at hread
        next htaken =>
            rw [if_pos htaken]
            exact ih hread
        next =>
            cases hread

/-- A command reads its arguments as at most a file, or there is no such command. -/
theorem readCommand_cases
    (name : Text) :
    (∃ takesFile, ∃ command : Option Text → Command,
      (∀ file? other?, (command file?).format? = (command other?).format?) ∧
      ∀ args, readCommand name args = (readFile takesFile false none args).map command) ∨
    ∀ args, ∃ error, readCommand name args = .error error := by
  by_cases heval : name = "eval".toList
  · subst heval
    exact Or.inl ⟨true, .report .text, fun _ _ => rfl, fun _ => rfl⟩
  by_cases hjson : name = "json".toList
  · subst hjson
    exact Or.inl ⟨true, .report .json, fun _ _ => rfl, fun _ => rfl⟩
  by_cases hrepl : name = "repl".toList
  · subst hrepl
    exact Or.inl ⟨false, fun _ => .converse, fun _ _ => rfl, fun _ => rfl⟩
  refine Or.inr fun args => ?_
  rw [readCommand, if_neg heval, if_neg hjson, if_neg hrepl]
  split
  · exact ⟨_, rfl⟩
  · split
    · exact ⟨_, rfl⟩
    · split <;> exact ⟨_, rfl⟩

/-- Later arguments have a say in the file of a command, and in nothing else. -/
theorem readCommand_of_append
    {name : Text} {command : Command}
    (hread : readCommand name (args ++ more) = .ok command) :
    ∃ earlier, readCommand name args = .ok earlier ∧ command.format? = earlier.format? := by
  rcases readCommand_cases name with ⟨takesFile, build, hformat, hbuild⟩ | hnone
  · rw [hbuild] at hread
    obtain ⟨file?, hfile, rfl⟩ := map_eq_ok.mp hread
    obtain ⟨earlier, hearlier⟩ := readFile_of_append hfile
    refine ⟨build earlier, ?_, hformat file? earlier⟩
    rw [hbuild, hearlier]
    rfl
  · obtain ⟨error, herror⟩ := hnone (args ++ more)
    rw [herror] at hread
    cases hread

/-- A file alone behind the terminator. -/
theorem readFile_behind
    {file : Text}
    (hfile : file ≠ []) :
    readFile true false none [terminator, file] = .ok (some file) := by
  have hempty : some file ≠ some [] := by
    simpa using hfile
  exact if_neg hempty

/-- What a normal form with a terminator asks for. -/
theorem parse_terminated
    {flags : List Text} {name : Text}
    (hflags : ∀ flag ∈ flags, RaisesVerbosity flag)
    (hlead : name ∈ leadWords)
    (program : Text) (args : List Text) :
    parse (program :: (flags ++ name :: args)) =
      (readCommand name args).map fun command => ⟨min 255 (timesRaised flags), some command⟩ := by
  rw [← totalVerbosity_eq hflags]
  exact readArgs_append (fun flag hmem => isVerbosityFlag_iff.mpr (hflags flag hmem))
    (isVerbosityFlag_eq_false_iff.mpr (not_raises_of_mem_leadWords hlead)) args

end Reading

/-- Arguments behind the terminator are left alone just when none of them raises the
verbosity where it is a flag, and none asks for JSON there unless a command is named
before. -/
theorem leftAlone_iff
    (program : Text) (before after : List Text)
    (hfirst : terminator ∉ before) :
    LeftAlone program before after ↔
      (∀ arg ∈ after, ¬RaisesVerbosity arg) ∧
        (NamesCommand before ∨ ∀ arg ∈ after, isJsonFlag arg = false) := by
  constructor
  · intro halone
    obtain ⟨other, hother⟩ := halone.verbatim
    obtain ⟨front, kept, hnormal, hfront, hkept, hsame⟩ :=
      normalize_terminated hfirst program after
    have hequal : front ++ terminator :: kept = other ++ terminator :: after := by
      exact (List.cons.inj (hnormal.symm.trans hother)).2
    exact hsame.mp (eq_of_append_cons hfront hkept.length_le hequal)
  · rintro ⟨hplain, hjson⟩
    obtain ⟨flags, others, hbefore⟩ := Interleaved.exists_of_args before
    obtain ⟨name, args, hlead, hasks, hnormal⟩ := exists_normalize_of_kept hbefore program
    have hparse := parse_terminated hbefore.raises hlead program
    refine ⟨⟨flags ++ name :: args, ?_⟩, ?_, ?_⟩
    · rw [hnormal after hplain hjson, List.append_assoc, List.cons_append]
    · intro invocation hinvocation
      rw [hnormal after hplain hjson, hparse] at hinvocation
      obtain ⟨command, hcommand, rfl⟩ := map_eq_ok.mp hinvocation
      have hsplit : args ++ terminator :: after = (args ++ [terminator]) ++ after := by
        rw [List.append_assoc, List.singleton_append]
      rw [hsplit] at hcommand
      obtain ⟨earlier, hearlier, hformat⟩ := readCommand_of_append hcommand
      refine ⟨⟨min 255 (timesRaised flags), some earlier⟩, ?_, rfl, congrArg some hformat⟩
      rw [hnormal [] (List.forall_mem_nil _) (Or.inr (List.forall_mem_nil _)), hparse, hearlier]
      rfl
    · intro file format otherFlags others hafter hfile hother hformat
      subst hafter
      obtain rfl := hbefore.filter_eq.1.symm.trans hother.filter_eq.1
      obtain rfl := hbefore.filter_eq.2.symm.trans hother.filter_eq.2
      obtain ⟨rfl, rfl⟩ := hasks format hformat
      rw [hnormal [file] hplain hjson, hparse, readCommand_commandOf, List.nil_append,
        readFile_behind hfile]
      rfl

/-- With the command named, `-j` behind the terminator is a file. -/
theorem leftAlone_iff_named :
    terminator ∉ ["-v".toList, "eval".toList] ∧
      normalize ["shunt".toList, "-v".toList, "eval".toList, "--".toList, "-j".toList] =
        ["shunt".toList, "-v".toList, "eval".toList, "--".toList, "-j".toList] ∧
      parse (normalize
          ["shunt".toList, "-v".toList, "eval".toList, "--".toList, "-j".toList]) =
        .ok ⟨1, some (.report .text (some "-j".toList))⟩ := by
  have hfirst : terminator ∉ ["-v".toList, "eval".toList] := by
    decide
  have hplain : ∀ arg ∈ ["-j".toList], ¬RaisesVerbosity arg := by
    intro arg hmem
    rw [List.mem_singleton.mp hmem]
    exact isVerbosityFlag_eq_false_iff.mp (by decide)
  have hnamed : NamesCommand ["-v".toList, "eval".toList] :=
    .flag (.letters 0) (.lead (by decide))
  have halone := (leftAlone_iff "shunt".toList _ ["-j".toList] hfirst).mpr ⟨hplain, Or.inl hnamed⟩
  have hbefore : Interleaved ["-v".toList] ["eval".toList] ["-v".toList, "eval".toList] :=
    .flag (.letters 0)
      (.other (not_raises_of_mem_leadWords (by decide)) .nil)
  refine ⟨hfirst, by decide, ?_⟩
  exact halone.file "-j".toList .text _ _ rfl (by decide) hbefore .eval

/-- Without a command, `-j` behind the terminator is a flag: it is taken out, reports
are written as JSON, and the standard input is read. -/
theorem json_flag_not_leftAlone :
    ¬LeftAlone "shunt".toList [] ["-j".toList] ∧
      normalize ["shunt".toList, "--".toList, "-j".toList] =
        ["shunt".toList, "json".toList, "--".toList] ∧
      parse (normalize ["shunt".toList, "--".toList, "-j".toList]) =
        .ok ⟨0, some (.report .json none)⟩ := by
  have hnormal : normalize ["shunt".toList, "--".toList, "-j".toList] =
      ["shunt".toList, "json".toList, "--".toList] := by
    decide
  have hparse : parse (normalize ["shunt".toList, "--".toList, "-j".toList]) =
      .ok ⟨0, some (.report .json none)⟩ := by
    decide
  refine ⟨?_, hnormal, hparse⟩
  intro halone
  have hfile := halone.file "-j".toList .text [] [] rfl (by decide) .nil .none
  exact absurd (hparse.symm.trans hfile) (by decide)

end CommandLine
end InfixCalc
