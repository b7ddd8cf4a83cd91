import InfixCalc.Proofs.Agreement
import InfixCalc.Proofs.Invocations
import InfixCalc.Proofs.Rereading

/-!
# Exit codes

A run that reports on a source ends with the code zero if every line that is
not blank has a value, the same on both ways, and with the code one otherwise.
Neither the format nor the place of the source matters.  A source that cannot
be read ends the run with the code two, before anything is written.

* `LineReport.bothGive_iff_isOk` : a line has one value if it has two.
* `Report.hasErrors_ofLine` : the two tests for values that are missing.
* `Program.exit_codes` : the exit codes of all runs that report.
-/

namespace InfixCalc
namespace LineReport

/-- The words of a line are tokens, and both ways lead to the value. -/
def BothGive (line : Text) (value : Value) : Prop :=
  ∃ report,
    LineReport.ofLine line = .ok report ∧
    report.rpnValue = .ok value ∧
    report.treeValue = .ok value

theorem eq_ok_of_toBool
    {ε α : Type} {result : Except ε α}
    (hok : result.toBool = true) :
    ∃ value, result = .ok value := by
  cases result with
  | ok value =>
      exact ⟨value, rfl⟩
  | error error =>
      cases hok

/-- Two values of a line are the same. -/
theorem treeValue_eq_rpnValue
    {line : Text} {report : LineReport} {value other : Value}
    (hline : LineReport.ofLine line = .ok report)
    (hvalue : report.rpnValue = .ok value)
    (hother : report.treeValue = .ok other) :
    other = value := by
  obtain ⟨tokens, -, rfl⟩ := ofLine_eq_ok.mp hline
  obtain ⟨hscan, hrun⟩ := run_of_rpnValue_ok hvalue
  rcases treeValue_of_run hscan hrun with hsame | hdeep
  · cases hother.symm.trans hsame
    rfl
  · cases hother.symm.trans hdeep

/-- A line has one value that both ways lead to just when each leads to one. -/
theorem bothGive_iff_isOk
    {line : Text} :
    (∃ value, BothGive line value) ↔
      ∃ report, LineReport.ofLine line = .ok report ∧ report.isOk = true := by
  constructor
  · rintro ⟨value, report, hline, hrpn, htree⟩
    refine ⟨report, hline, ?_⟩
    rw [isOk, hrpn, htree]
    rfl
  · rintro ⟨report, hline, hok⟩
    -- The test only asks for two values; that they are one is the agreement of
    -- the two ways.
    rw [isOk, Bool.and_eq_true] at hok
    obtain ⟨value, hrpn⟩ := eq_ok_of_toBool hok.2
    obtain ⟨other, htree⟩ := eq_ok_of_toBool hok.1
    rw [treeValue_eq_rpnValue hline hrpn htree] at htree
    exact ⟨value, report, hline, hrpn, htree⟩

/-- A sequence that has a value is there. -/
theorem rpn_of_rpnValue
    {tokens : List Token}
    (hok : (LineReport.ofTokens tokens).rpnValue.toBool = true) :
    (LineReport.ofTokens tokens).rpn.toBool = true := by
  change (evaluateWith Rpn.evaluate (Rpn.ofInfix tokens)).toBool = true at hok
  change (Rpn.ofInfix tokens).toBool = true
  cases hrpn : Rpn.ofInfix tokens with
  | ok rpn =>
      rfl
  | error error =>
      rw [hrpn] at hok
      cases hok

end LineReport

section Outcomes

variable {ε α β : Type}

theorem Outcome.isError_ofExcept
    (message : ε → Text) (result : Except ε α) :
    (Outcome.ofExcept message result).isError = !result.toBool := by
  cases result <;> rfl

theorem toBool_map
    (next : α → β) (result : Except ε α) :
    (result.map next).toBool = result.toBool := by
  cases result <;> rfl

end Outcomes

namespace Report

theorem hasErrors_ofLineReport
    (number : Nat) (tokens : List Token) :
    (ofLineReport number (.ofTokens tokens)).hasErrors = !(LineReport.ofTokens tokens).isOk := by
  have hrpn := @LineReport.rpn_of_rpnValue tokens
  rw [hasErrors, ofLineReport, LineReport.isOk]
  simp only [LineReport.rpnOutcome, LineReport.rpnValueOutcome, LineReport.treeValueOutcome,
    Outcome.isError_ofExcept, toBool_map]
  cases hvalue : (LineReport.ofTokens tokens).rpnValue.toBool with
  | true =>
      simp [hrpn hvalue]
  | false =>
      simp

/-- A report lacks a value just when its line has a word that is no token, or
has no value on one of the ways. -/
theorem hasErrors_ofLine
    (number : Nat) (line : Text) :
    (ofLine number line).hasErrors = true ↔
      ¬∃ report, LineReport.ofLine line = .ok report ∧ report.isOk = true := by
  cases htokens : Token.ofLine line with
  | error error =>
      rw [ofLine_of_lexError htokens]
      refine iff_of_true rfl ?_
      rintro ⟨report, hline, -⟩
      obtain ⟨tokens, htokens', -⟩ := LineReport.ofLine_eq_ok.mp hline
      cases htokens.symm.trans htokens'
  | ok tokens =>
      have hline := LineReport.ofLine_eq_ok.mpr ⟨tokens, htokens, rfl⟩
      rw [ofLine_of_tokens htokens, hasErrors_ofLineReport, hline]
      simp

theorem any_hasErrors_ofLines
    (number : Nat) (lines : List Text) :
    (ofLines number lines).any hasErrors = true ↔
      ∃ line ∈ lines, ¬∃ value, LineReport.BothGive line value := by
  induction lines generalizing number with
  | nil =>
      simp [ofLines]
  | cons line lines ih =>
      rw [ofLines, List.any_cons, Bool.or_eq_true, ih, hasErrors_ofLine,
        ← LineReport.bothGive_iff_isOk]
      simp only [List.mem_cons, exists_eq_or_imp]

/-- Some report on a source lacks a value just when some line that is not blank
does. -/
theorem any_hasErrors_ofSource
    (source : Text) :
    (ofSource source).any hasErrors = true ↔
      ∃ line ∈ Text.lines source,
        ¬Text.allBlank line ∧ ¬∃ value, LineReport.BothGive line value := by
  rw [ofSource, any_hasErrors_ofLines]
  simp only [linesOf, List.mem_filter, Bool.not_eq_true', Bool.not_eq_true, and_assoc]

end Report

namespace Program

open CommandLine

theorem exit_reported_eq_one
    {format : Format} {source : Text} :
    (reported format source).exit = 1 ↔
      ∃ line ∈ Text.lines source,
        ¬Text.allBlank line ∧ ¬∃ value, LineReport.BothGive line value := by
  rw [← Report.any_hasErrors_ofSource]
  simp [reported]

theorem exit_reported_eq_zero
    {format : Format} {source : Text} :
    (reported format source).exit = 0 ↔
      ∀ line ∈ Text.lines source,
        ¬Text.allBlank line → ∃ value, LineReport.BothGive line value := by
  have hcodes : (reported format source).exit = 0 ↔ ¬(reported format source).exit = 1 := by
    simp [reported]
  rw [hcodes, exit_reported_eq_one]
  push Not
  rfl

theorem report_of_unreadable
    {content : Content}
    (hread : ¬∃ source, readText content = .ok source)
    (format : Format) (file? : Option Text) :
    (report format file? content).exit = 2 ∧ (report format file? content).output = [] := by
  cases hcontent : readText content with
  | ok source =>
      exact absurd ⟨source, hcontent⟩ hread
  | error error =>
      rw [report, hcontent]
      exact ⟨rfl, rfl⟩

/-- The exit code of reports depends on their source only. -/
theorem exit_report
    (format other : Format) (file? other? : Option Text) (content : Content) :
    (report format file? content).exit = (report other other? content).exit := by
  cases hcontent : readText content with
  | ok source =>
      rw [report_of_readText hcontent, report_of_readText hcontent]
      rfl
  | error error =>
      rw [report, report, hcontent]

/-- A run that is asked for reports ends with zero if its source can be read
and each line that is not blank has a value that both ways lead to, with one if
the source can be read and some line has none, and with two and without output
if the source cannot be read.  Runs on the same source end alike, whatever
their formats are. -/
theorem exit_codes
    (world : World) (args : List Text) (format : Format) (file? : Option Text)
    (hasks : AsksFor args (.report format file?)) :
    (∀ source,
      readText (world.source file?) = .ok source →
      ((run world args).exit = 0 ↔
        ∀ line ∈ Text.lines source,
          ¬Text.allBlank line → ∃ value, LineReport.BothGive line value) ∧
      ((run world args).exit = 1 ↔
        ∃ line ∈ Text.lines source,
          ¬Text.allBlank line ∧ ¬∃ value, LineReport.BothGive line value)) ∧
    ((¬∃ source, readText (world.source file?) = .ok source) →
      (run world args).exit = 2 ∧ (run world args).output = []) ∧
    (∀ other otherArgs otherFormat otherFile?,
      AsksFor otherArgs (.report otherFormat otherFile?) →
      other.source otherFile? = world.source file? →
      (run other otherArgs).exit = (run world args).exit) ∧
    ∀ number line,
      (Report.ofLine number line).hasErrors = true ↔
        ¬∃ report, LineReport.ofLine line = .ok report ∧ report.isOk = true := by
  have hrun : run world args = report format file? (world.source file?) :=
    run_of_asksFor hasks world
  refine ⟨?_, ?_, ?_, Report.hasErrors_ofLine⟩
  · intro source hread
    rw [hrun, report_of_readText hread]
    exact ⟨exit_reported_eq_zero, exit_reported_eq_one⟩
  · intro hread
    rw [hrun]
    exact report_of_unreadable hread format file?
  · intro other otherArgs otherFormat otherFile? hother hsource
    have hotherRun :
        run other otherArgs = report otherFormat otherFile? (other.source otherFile?) :=
      run_of_asksFor hother other
    rw [hotherRun, hrun, hsource]
    exact exit_report otherFormat format otherFile? file? (world.source file?)

/-- The tree of `3 +` has a value, and still the exit code is one. -/
theorem exit_codes_unfinished :
    AsksFor ["shunt".toList, "json".toList] (.report .json none) ∧
      readText (.ok [51, 32, 43]) = .ok "3 +".toList ∧
      (run ⟨[51, 32, 43], fun _ => .error .missing⟩ ["shunt".toList, "json".toList]).exit = 1 := by
  have hasks : AsksFor ["shunt".toList, "json".toList] (.report .json none) :=
    asksFor_of_wayWithInput (by decide) (Padded.refl ["json".toList]) "shunt".toList
  have hread : readText (.ok [51, 32, 43]) = .ok "3 +".toList := by
    decide
  have hwords : Text.words "3 +".toList = ["3".toList, "+".toList] := by
    decide
  have hthree : Token.ofWord "3".toList = .ok (.number 3) :=
    Token.ofWord_of_whole rfl rfl
  have hplus : Token.ofWord "+".toList = .ok (.operator .plus) :=
    Token.ofWord_of_whole rfl rfl
  have htokens : Token.ofLine "3 +".toList = .ok [.number 3, .operator .plus] := by
    rw [Token.ofLine, hwords, List.mapM_cons, hthree, ok_bind, List.mapM_cons, hplus, ok_bind]
    rfl
  have hline := LineReport.ofLine_eq_ok.mpr ⟨_, htokens, rfl⟩
  have hfailed :
      (LineReport.ofTokens [.number 3, .operator .plus]).rpnValue =
        .error (.eval (.insufficientOperands .plus)) := by
    decide
  have hcodes := exit_codes ⟨[51, 32, 43], fun _ => .error .missing⟩ _ .json none hasks
  refine ⟨hasks, hread, (hcodes.1 "3 +".toList hread).2.mpr ?_⟩
  refine ⟨"3 +".toList, by decide, by decide, ?_⟩
  rintro ⟨value, report, hreport, hvalue, -⟩
  cases hline.symm.trans hreport
  cases hfailed.symm.trans hvalue

end Program
end InfixCalc
