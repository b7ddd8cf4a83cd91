import InfixCalc.Proofs.Invocations

/-!
# The normal form of command lines

In normal form the verbosity flags stand together behind the program's name, and
what follows begins with a word that says what to do.  A command line keeps its
normal form when it is brought into it again, and flags can be moved about before:
the normal form, and with it the command or the usage error, depends on the flags
in their order and on the other arguments in theirs.

* `IsNormal` : normal forms, apart from the function that makes them.
* `normalize_eq_self_iff` : the normal forms are what stays as it is.
* `Interleaved` : flags and other arguments, in any arrangement.
* `parse_normalize_of_interleaved` : what flags do to what is asked for.
* `flags_anywhere` : the two together.
-/

namespace InfixCalc
namespace CommandLine

section Flags

variable {arg : Text}

theorem raises_of_isVerbosityFlag
    (hflag : isVerbosityFlag arg = true) :
    RaisesVerbosity arg := by
  unfold isVerbosityFlag at hflag
  split at hflag
  · next letters =>
      rw [Bool.or_eq_true, Bool.and_eq_true, Bool.not_eq_true', List.isEmpty_eq_false_iff,
        List.all_eq_true, decide_eq_true_eq] at hflag
      rcases hflag with ⟨hne, hletters⟩ | rfl
      · obtain ⟨count, hcount⟩ := Nat.exists_eq_succ_of_ne_zero (mt List.length_eq_zero_iff.mp hne)
        have hrow : letters = List.replicate (count + 1) 'v' := by
          refine List.eq_replicate_iff.mpr ⟨hcount, ?_⟩
          intro letter hmem
          simpa using hletters letter hmem
        rw [hrow]
        exact .letters count
      · exact .long
  · cases hflag

theorem isVerbosityFlag_iff :
    isVerbosityFlag arg = true ↔ RaisesVerbosity arg :=
  ⟨raises_of_isVerbosityFlag, isVerbosityFlag_of_raises⟩

theorem isVerbosityFlag_eq_false_iff :
    isVerbosityFlag arg = false ↔ ¬RaisesVerbosity arg := by
  rw [← isVerbosityFlag_iff, Bool.not_eq_true]

theorem not_raises_of_mem_leadWords
    (hlead : arg ∈ leadWords) :
    ¬RaisesVerbosity arg := by
  have hwords : ∀ word ∈ leadWords, isVerbosityFlag word = false := by
    decide
  exact isVerbosityFlag_eq_false_iff.mp (hwords arg hlead)

end Flags

section Filters

variable {args : List Text}

theorem filter_flags
    (hflags : ∀ flag ∈ args, RaisesVerbosity flag) :
    args.filter isVerbosityFlag = args ∧
      args.filter (fun arg => !isVerbosityFlag arg) = [] := by
  refine ⟨List.filter_eq_self.mpr ?_, List.filter_eq_nil_iff.mpr ?_⟩
  · intro flag hmem
    exact isVerbosityFlag_iff.mpr (hflags flag hmem)
  · intro flag hmem
    simp [isVerbosityFlag_iff.mpr (hflags flag hmem)]

theorem filter_others
    (hothers : ∀ arg ∈ args, ¬RaisesVerbosity arg) :
    args.filter isVerbosityFlag = [] ∧
      args.filter (fun arg => !isVerbosityFlag arg) = args := by
  refine ⟨List.filter_eq_nil_iff.mpr ?_, List.filter_eq_self.mpr ?_⟩
  · intro arg hmem
    simp [isVerbosityFlag_eq_false_iff.mpr (hothers arg hmem)]
  · intro arg hmem
    simp [isVerbosityFlag_eq_false_iff.mpr (hothers arg hmem)]

end Filters

/-- Command lines in normal form: the program's name, flags that raise the
verbosity, and then nothing, or a lead word and arguments that are no such
flags. -/
inductive IsNormal : List Text → Prop
  | empty :
      IsNormal []
  | bare {program : Text} {flags : List Text} :
      (∀ flag ∈ flags, RaisesVerbosity flag) →
      IsNormal (program :: flags)
  | command {program name : Text} {flags args : List Text} :
      (∀ flag ∈ flags, RaisesVerbosity flag) →
      name ∈ leadWords →
      (∀ arg ∈ args, ¬RaisesVerbosity arg) →
      IsNormal (program :: (flags ++ name :: args))

/-- With a lead word in front, arguments are as they were, or fewer. -/
theorem withCommand_cases
    {args : List Text}
    (hothers : ∀ arg ∈ args, ¬RaisesVerbosity arg) :
    withCommand args = [] ∨
      ∃ name rest,
        withCommand args = name :: rest ∧
        name ∈ leadWords ∧
        ∀ arg ∈ rest, ¬RaisesVerbosity arg := by
  cases args with
  | nil =>
      exact Or.inl rfl
  | cons first rest =>
      refine Or.inr ?_
      by_cases hlead : first ∈ leadWords
      · exact ⟨first, rest, if_pos hlead, hlead, (List.forall_mem_cons.mp hothers).2⟩
      · refine ⟨_, _, withCommand_of_notMem hlead rest, ?_, ?_⟩
        · split <;> decide
        · intro arg hmem
          exact hothers arg (List.mem_filter.mp hmem).1

theorem withCommand_of_mem
    {name : Text}
    (hlead : name ∈ leadWords)
    (args : List Text) :
    withCommand (name :: args) = name :: args :=
  if_pos hlead

theorem not_raises_of_mem_filter
    {args : List Text} :
    ∀ arg ∈ args.filter fun arg => !isVerbosityFlag arg, ¬RaisesVerbosity arg := by
  intro arg hmem
  exact isVerbosityFlag_eq_false_iff.mp (by simpa using (List.mem_filter.mp hmem).2)

/-- The normal form of a command line is a normal form. -/
theorem isNormal_normalize
    (args : List Text) :
    IsNormal (normalize args) := by
  cases args with
  | nil =>
      exact .empty
  | cons program args =>
      have hflags : ∀ flag ∈ args.filter isVerbosityFlag, RaisesVerbosity flag :=
        fun _ hmem => isVerbosityFlag_iff.mp (mem_filter_isVerbosityFlag hmem)
      rw [normalize, List.cons_append]
      rcases withCommand_cases (@not_raises_of_mem_filter args) with
        hnone | ⟨name, rest, hcommand, hlead, hrest⟩
      · rw [hnone, List.append_nil]
        exact .bare hflags
      · rw [hcommand]
        exact .command hflags hlead hrest

/-- Normal forms stay as they are. -/
theorem normalize_of_isNormal
    {args : List Text}
    (hnormal : IsNormal args) :
    normalize args = args := by
  cases hnormal with
  | empty =>
      rfl
  | bare hflags =>
      obtain ⟨hkept, hnone⟩ := filter_flags hflags
      rw [normalize, hkept, hnone, withCommand, List.append_nil]
  | @command program name flags args hflags hlead hothers =>
      obtain ⟨hkept, hnone⟩ := filter_flags hflags
      obtain ⟨hnoFlag, hall⟩ :=
        filter_others (List.forall_mem_cons.mpr ⟨not_raises_of_mem_leadWords hlead, hothers⟩)
      rw [normalize, List.filter_append, List.filter_append, hkept, hnone, hnoFlag, hall,
        List.append_nil, List.nil_append, withCommand_of_mem hlead, List.cons_append]

theorem normalize_eq_self_iff
    {args : List Text} :
    normalize args = args ↔ IsNormal args := by
  constructor
  · intro hself
    rw [← hself]
    exact isNormal_normalize args
  · exact normalize_of_isNormal

/-- Flags that raise the verbosity, other arguments, and an arrangement of both
that keeps the order of either. -/
inductive Interleaved : List Text → List Text → List Text → Prop
  | nil :
      Interleaved [] [] []
  | flag {flag : Text} {flags others args : List Text} :
      RaisesVerbosity flag →
      Interleaved flags others args →
      Interleaved (flag :: flags) others (flag :: args)
  | other {arg : Text} {flags others args : List Text} :
      ¬RaisesVerbosity arg →
      Interleaved flags others args →
      Interleaved flags (arg :: others) (arg :: args)

namespace Interleaved

variable {flags others args : List Text}

/-- All arguments of a command line are one or the other. -/
theorem exists_of_args
    (args : List Text) :
    ∃ flags others, Interleaved flags others args := by
  induction args with
  | nil =>
      exact ⟨[], [], .nil⟩
  | cons arg args ih =>
      obtain ⟨flags, others, hrest⟩ := ih
      by_cases hflag : RaisesVerbosity arg
      · exact ⟨arg :: flags, others, .flag hflag hrest⟩
      · exact ⟨flags, arg :: others, .other hflag hrest⟩

theorem raises
    (hargs : Interleaved flags others args) :
    ∀ flag ∈ flags, RaisesVerbosity flag := by
  induction hargs with
  | nil =>
      exact List.forall_mem_nil _
  | flag hflag _ ih =>
      exact List.forall_mem_cons.mpr ⟨hflag, ih⟩
  | other _ _ ih =>
      exact ih

theorem not_raises
    (hargs : Interleaved flags others args) :
    ∀ arg ∈ others, ¬RaisesVerbosity arg := by
  induction hargs with
  | nil =>
      exact List.forall_mem_nil _
  | flag _ _ ih =>
      exact ih
  | other harg _ ih =>
      exact List.forall_mem_cons.mpr ⟨harg, ih⟩

theorem filter_eq
    (hargs : Interleaved flags others args) :
    args.filter isVerbosityFlag = flags ∧
      args.filter (fun arg => !isVerbosityFlag arg) = others := by
  induction hargs with
  | nil =>
      exact ⟨rfl, rfl⟩
  | flag hflag _ ih =>
      have hkept := isVerbosityFlag_iff.mpr hflag
      rw [List.filter_cons_of_pos hkept, List.filter_cons_of_neg (by simp [hkept]), ih.1, ih.2]
      exact ⟨rfl, rfl⟩
  | other harg _ ih =>
      have hleft := isVerbosityFlag_eq_false_iff.mpr harg
      rw [List.filter_cons_of_neg (by simp [hleft]), List.filter_cons_of_pos (by simp [hleft]),
        ih.1, ih.2]
      exact ⟨rfl, rfl⟩

end Interleaved

/-- How often flags raise the verbosity: once for each `--verbose`, and in other
flags once for each letter `v`. -/
def timesRaised (flags : List Text) : Nat :=
  flags.count "--verbose".toList +
    ((flags.filter fun flag => flag ≠ "--verbose".toList).flatten).count 'v'

theorem timesRaised_cons
    {flag : Text}
    (hflag : RaisesVerbosity flag)
    (flags : List Text) :
    timesRaised (flag :: flags) = verbosityOf flag + timesRaised flags := by
  cases hflag with
  | long =>
      rw [timesRaised, List.count_cons_self, List.filter_cons_of_neg (by simp), timesRaised,
        verbosityOf, if_pos rfl]
      omega
  | letters count =>
      have hshort : '-' :: List.replicate (count + 1) 'v' ≠ "--verbose".toList := by
        intro hlong
        injection hlong with _ hlong
        cases hlong
      have hletters : ('-' :: List.replicate (count + 1) 'v').count 'v' = count + 1 := by
        rw [List.count_cons_of_ne (by decide), List.count_replicate_self]
      have hraised : verbosityOf ('-' :: List.replicate (count + 1) 'v') = count + 1 := by
        rw [verbosityOf, if_neg hshort, List.length_cons, List.length_replicate,
          Nat.add_sub_cancel]
      rw [timesRaised, List.count_cons_of_ne hshort,
        List.filter_cons_of_pos (by rwa [decide_eq_true_eq]), List.flatten_cons,
        List.count_append, hletters, timesRaised, hraised]
      exact Nat.add_left_comm _ _ _

theorem totalVerbosity_eq
    {flags : List Text}
    (hflags : ∀ flag ∈ flags, RaisesVerbosity flag) :
    totalVerbosity flags = min 255 (timesRaised flags) := by
  have hsum : flags.foldr (fun flag total => verbosityOf flag + total) 0 = timesRaised flags := by
    induction flags with
    | nil =>
        rfl
    | cons flag flags ih =>
        rw [List.forall_mem_cons] at hflags
        rw [List.foldr_cons, ih hflags.2, timesRaised_cons hflags.1]
  rw [totalVerbosity, hsum, maxVerbosity]

/-- Flags in front change the verbosity, and nothing else. -/
theorem readArgs_flags_append
    {flags others : List Text}
    (hflags : ∀ flag ∈ flags, RaisesVerbosity flag)
    (hothers : ∀ arg ∈ others, ¬RaisesVerbosity arg) :
    readArgs (flags ++ withCommand others) =
      (readArgs (withCommand others)).map fun invocation =>
        { invocation with verbosity := totalVerbosity flags } := by
  have hkept : ∀ flag ∈ flags, isVerbosityFlag flag = true :=
    fun flag hmem => isVerbosityFlag_iff.mpr (hflags flag hmem)
  rcases withCommand_cases hothers with hnone | ⟨name, rest, hcommand, hlead, -⟩
  · rw [hnone, List.append_nil, readArgs_flags hkept]
    rfl
  · have hname := isVerbosityFlag_eq_false_iff.mpr (not_raises_of_mem_leadWords hlead)
    have halone := readArgs_append (List.forall_mem_nil _) hname rest
    rw [List.nil_append] at halone
    rw [hcommand, readArgs_append hkept hname, halone]
    cases readCommand name rest <;> rfl

theorem normalize_of_interleaved
    {flags others args : List Text}
    (hargs : Interleaved flags others args)
    (program : Text) :
    normalize (program :: args) = program :: (flags ++ withCommand others) := by
  obtain ⟨hflags, hothers⟩ := hargs.filter_eq
  rw [normalize, hflags, hothers, List.cons_append]

theorem parse_normalize_of_interleaved
    {flags others args : List Text}
    (hargs : Interleaved flags others args)
    (program : Text) :
    parse (normalize (program :: args)) =
      (parse (normalize (program :: others))).map fun invocation =>
        { invocation with verbosity := min 255 (timesRaised flags) } := by
  obtain ⟨hnoFlag, hall⟩ := filter_others hargs.not_raises
  rw [normalize_of_interleaved hargs, normalize, hnoFlag, hall, ← totalVerbosity_eq hargs.raises]
  exact readArgs_flags_append hargs.raises hargs.not_raises

/-- The normal form of a command line is its own normal form, and nothing else is
its own.  Arguments are verbosity flags and others in some arrangement; the normal
form is the same for every arrangement that keeps the order of the flags and that
of the others, and asks for the same command as without the flags, or fails in
the same way, with the verbosity that the flags ask for. -/
theorem flags_anywhere :
    (∀ args, normalize (normalize args) = normalize args) ∧
    (∀ args, normalize args = args ↔ IsNormal args) ∧
    (∀ args, ∃ flags others, Interleaved flags others args) ∧
    ∀ program flags others args, Interleaved flags others args →
      (∀ arranged, Interleaved flags others arranged →
        normalize (program :: arranged) = normalize (program :: args)) ∧
      parse (normalize (program :: args)) =
        (parse (normalize (program :: others))).map fun invocation =>
          { invocation with verbosity := min 255 (timesRaised flags) } := by
  refine ⟨?_, fun _ => normalize_eq_self_iff, Interleaved.exists_of_args, ?_⟩
  · intro args
    exact normalize_of_isNormal (isNormal_normalize args)
  · intro program flags others args hargs
    refine ⟨?_, parse_normalize_of_interleaved hargs program⟩
    intro arranged harranged
    rw [normalize_of_interleaved harranged, normalize_of_interleaved hargs]

/-- Four times more is to be told about a file, with the flag for JSON between the
flags and behind it; without `--verbose` and `-vvv` the command is the same. -/
theorem flags_anywhere_scattered :
    normalize ["shunt".toList, "-vvv".toList, "sums".toList, "--verbose".toList, "-j".toList] =
        normalize ["shunt".toList, "sums".toList, "-j".toList, "-vvv".toList,
          "--verbose".toList] ∧
      parse (normalize
          ["shunt".toList, "sums".toList, "-j".toList, "-vvv".toList, "--verbose".toList]) =
        .ok ⟨4, some (.report .json (some "sums".toList))⟩ := by
  have hfile : ¬RaisesVerbosity "sums".toList :=
    isVerbosityFlag_eq_false_iff.mp (by decide)
  have hjson : ¬RaisesVerbosity "-j".toList :=
    isVerbosityFlag_eq_false_iff.mp (by decide)
  have hscattered :
      Interleaved ["-vvv".toList, "--verbose".toList] ["sums".toList, "-j".toList]
        ["-vvv".toList, "sums".toList, "--verbose".toList, "-j".toList] :=
    .flag (.letters 2) (.other hfile (.flag .long (.other hjson .nil)))
  have hlast :
      Interleaved ["-vvv".toList, "--verbose".toList] ["sums".toList, "-j".toList]
        ["sums".toList, "-j".toList, "-vvv".toList, "--verbose".toList] :=
    .other hfile (.other hjson (.flag (.letters 2) (.flag .long .nil)))
  have hanywhere := flags_anywhere.2.2.2 "shunt".toList _ _ _ hlast
  refine ⟨hanywhere.1 _ hscattered, ?_⟩
  rw [hanywhere.2]
  decide

end CommandLine
end InfixCalc
