import InfixCalc.Proofs.ExitCode
import InfixCalc.Proofs.Respacing
import InfixCalc.Proofs.Sessions
import InfixCalc.Proofs.SourceLines

/-!
# Answers and reports

A session answers an expression from its trimmed text, and a report is made from
the line as it stands in a source.  Both read the same words, so the answer to a
line tells what the only report on this line has: its sequence, its tree if trees
are shown, and its values.  Two values that differ are never both there.

* `Session.answer_of_inked` : the answer to a line with words.
* `Report.isError_of_ne` : values of a report that differ.
* `Session.answer_tells_report` : an answer and the report on its line.
-/

namespace InfixCalc

theorem Text.trim_ne_nil
    {line : Text}
    (hinked : Text.allBlank line = false) :
    Text.trim line ≠ [] := by
  intro hnone
  have hblank : Text.allBlank line = true := by
    rw [Text.allBlank_iff_words_eq_nil, ← Text.words_trim, hnone, Text.words_nil]
  rw [hblank] at hinked
  cases hinked

theorem Outcome.eq_ok_of_ofExcept
    {α ε : Type} {message : ε → Text} {result : Except ε α} {value : α}
    (hvalue : Outcome.ofExcept message result = .value value) :
    result = .ok value := by
  cases result with
  | ok found =>
      cases hvalue
      rfl
  | error error =>
      cases hvalue

namespace Report

/-- Two values of a report that differ are not both there. -/
theorem isError_of_ne
    {number : Nat} {line : Text}
    (hne : (ofLine number line).rpnValue ≠ (ofLine number line).treeValue) :
    (ofLine number line).rpnValue.isError = true ∨
      (ofLine number line).treeValue.isError = true := by
  cases htokens : Token.ofLine line with
  | error error =>
      rw [ofLine_of_lexError htokens]
      exact Or.inl rfl
  | ok tokens =>
      have hline := LineReport.ofLine_eq_ok.mpr ⟨tokens, htokens, rfl⟩
      rw [ofLine_of_tokens htokens] at hne ⊢
      cases hvalue : (ofLineReport number (.ofTokens tokens)).rpnValue with
      | error message =>
          exact Or.inl rfl
      | value value =>
          cases hother : (ofLineReport number (.ofTokens tokens)).treeValue with
          | error message =>
              exact Or.inr rfl
          | value other =>
              have hsame := LineReport.treeValue_eq_rpnValue hline
                (Outcome.eq_ok_of_ofExcept hvalue) (Outcome.eq_ok_of_ofExcept hother)
              exact absurd (by rw [hvalue, hother, hsame]) hne

end Report

namespace Session

variable {line : Text}

/-- A line with words that is no command is answered from its words. -/
theorem answer_of_inked
    (hinked : Text.allBlank line = false)
    (hcolon : (Text.trim line).head? ≠ some ':')
    (session : Session) :
    session.answer line = ⟨expressionEntries session.showTree line, false, session⟩ := by
  have hreport : LineReport.ofLine (Text.trim line) = LineReport.ofLine line := by
    rw [LineReport.ofLine, Token.ofLine_of_words (Text.words_trim line), LineReport.ofLine]
  rw [answer_of_no_command hcolon, plainEntries, if_neg (Text.trim_ne_nil hinked),
    expressionEntries, hreport, expressionEntries]

theorem expressionEntries_of_lexError
    {error : LexError}
    (herror : Token.ofLine line = .error error)
    (showTree : Bool) :
    expressionEntries showTree line = ["error: ".toList ++ error.message] := by
  rw [expressionEntries, LineReport.ofLine, herror]
  rfl

theorem expressionEntries_of_tokens
    {tokens : List Token}
    (htokens : Token.ofLine line = .ok tokens)
    (showTree : Bool) :
    expressionEntries showTree line =
      ("postfix: ".toList ++ (LineReport.ofTokens tokens).rpnOutcome.render id) ::
        (if showTree then outlineEntry (.ofTokens tokens) else []) ++
          valueEntries (.ofTokens tokens) := by
  rw [expressionEntries, LineReport.ofLine, htokens]
  rfl

theorem outlineEntry_eq
    (report : LineReport) :
    outlineEntry report = report.tree.toOption.toList.map (Expr.outline 2) := by
  unfold outlineEntry
  cases report.tree <;> rfl

/-- A line with words has one report, and unless it is a command the answer to
it tells what the report has, whatever the session was told before: the message
if a word is no token; else the sequence, the tree if trees are shown and there
is one, and the values, one entry if they are the same and otherwise two, and
then one of the values is not there. -/
theorem answer_tells_report
    (session : Session) (line : Text)
    (hfeed : '\n' ∉ line)
    (hinked : Text.allBlank line = false)
    (hcolon : (Text.trim line).head? ≠ some ':') :
    ∃ report entries,
      Report.ofSource line = [report] ∧
      session.answer line = ⟨entries, false, session⟩ ∧
      (∀ error, Token.ofLine line = .error error →
        ∃ message,
          entries = ["error: ".toList ++ message] ∧
          report.rpn = .error message ∧
          report.rpnValue = .error message ∧
          report.treeValue = .error message) ∧
      ∀ tokens, Token.ofLine line = .ok tokens →
        ∃ values,
          entries =
            ("postfix: ".toList ++ report.rpn.render id) ::
              (if session.showTree then report.tree?.toList.map (Expr.outline 2) else []) ++
                values ∧
          (report.rpnValue = report.treeValue →
            values = [report.rpnValue.render Text.ofValue]) ∧
          (report.rpnValue ≠ report.treeValue →
            values =
              ["postfix eval: ".toList ++ report.rpnValue.render Text.ofValue,
               "tree eval: ".toList ++ report.treeValue.render Text.ofValue] ∧
            (report.rpnValue.isError = true ∨ report.treeValue.isError = true)) := by
  refine ⟨Report.ofLine 1 line, expressionEntries session.showTree line,
    Report.ofSource_of_line hfeed hinked, answer_of_inked hinked hcolon session, ?_, ?_⟩
  · intro error herror
    refine ⟨error.message, expressionEntries_of_lexError herror session.showTree, ?_⟩
    rw [Report.ofLine_of_lexError herror]
    exact ⟨rfl, rfl, rfl⟩
  · intro tokens htokens
    have hdiffer := @Report.isError_of_ne 1 line
    rw [Report.ofLine_of_tokens htokens] at hdiffer ⊢
    refine ⟨valueEntries (.ofTokens tokens), ?_, ?_, ?_⟩
    · rw [expressionEntries_of_tokens htokens, outlineEntry_eq]
      rfl
    · intro heq
      exact if_pos heq
    · intro hne
      exact ⟨if_neg hne, hdiffer hne⟩

/-- The operator of `3 +` comes last: the sequence has no value, and the tree has
one. -/
theorem answer_tells_report_unfinished :
    ∃ report,
      Report.ofSource "\t3 +\r".toList = [report] ∧
      report.rpnValue ≠ report.treeValue ∧
      (answer ⟨true⟩ "\t3 +\r".toList).entries =
        ("postfix: ".toList ++ report.rpn.render id) ::
          report.tree?.toList.map (Expr.outline 2) ++
            ["postfix eval: ".toList ++ report.rpnValue.render Text.ofValue,
             "tree eval: ".toList ++ report.treeValue.render Text.ofValue] := by
  have htokens : Token.ofLine "\t3 +\r".toList = .ok [.number 3, .operator .plus] :=
    Token.ofLine_of_words_eq (by decide) (by decide)
  have hne : (Report.ofLine 1 "\t3 +\r".toList).rpnValue ≠
      (Report.ofLine 1 "\t3 +\r".toList).treeValue := by
    rw [Report.ofLine_of_tokens htokens]
    decide
  obtain ⟨report, entries, hreport, hanswer, -, htells⟩ :=
    answer_tells_report ⟨true⟩ "\t3 +\r".toList (by decide) (by decide) (by decide)
  obtain ⟨values, hentries, -, hdiffer⟩ := htells _ htokens
  cases (Report.ofSource_of_line (by decide) (by decide)).symm.trans hreport
  refine ⟨_, hreport, hne, ?_⟩
  rw [hanswer, hentries, (hdiffer hne).1]
  rfl

end Session
end InfixCalc
