import InfixCalc.Proofs.Lines
import InfixCalc.Proofs.TokenTexts
import InfixCalc.Report

/-!
# Reading reports again

The expression of a report is a normal form of its line: the tokens, or the
words if one of them is no token, with single spaces between them.  Reading it
again gives the same report, because every token that was read is written as a
word that is read as this token, and words that are no tokens are kept.

* `Report.ofLine_of_words` : a report depends on the words of its line only.
* `Report.expressions_reread` : the expressions of the reports on a source have
  the same reports.
-/

namespace InfixCalc

namespace Token

/-- Only a line without words has no tokens. -/
theorem words_eq_nil_of_ofLine
    {line : Text}
    (htokens : ofLine line = .ok []) :
    Text.words line = [] := by
  rw [ofLine] at htokens
  cases hwords : Text.words line with
  | nil =>
      rfl
  | cons word words =>
      rw [hwords, List.mapM_cons] at htokens
      obtain ⟨token, -, htokens⟩ := bind_eq_ok.mp htokens
      obtain ⟨later, -, htokens⟩ := bind_eq_ok.mp htokens
      cases htokens

end Token

theorem LineReport.ofLine_eq_ok
    {line : Text} {report : LineReport} :
    LineReport.ofLine line = .ok report ↔
      ∃ tokens, Token.ofLine line = .ok tokens ∧ report = .ofTokens tokens := by
  rw [LineReport.ofLine]
  cases htokens : Token.ofLine line with
  | ok tokens =>
      constructor
      · rintro ⟨⟩
        exact ⟨tokens, rfl, rfl⟩
      · rintro ⟨other, ⟨⟩, rfl⟩
        rfl
  | error error =>
      constructor
      · rintro ⟨⟩
      · rintro ⟨tokens, ⟨⟩, -⟩

namespace Report

/-- A report depends on the words of its line only. -/
theorem ofLine_of_words
    {line other : Text}
    (hwords : Text.words line = Text.words other)
    (number : Nat) :
    ofLine number line = ofLine number other := by
  unfold ofLine ofLexError LineReport.ofLine Token.ofLine
  rw [hwords]

theorem ofLine_of_tokens
    {line : Text} {tokens : List Token}
    (htokens : Token.ofLine line = .ok tokens)
    (number : Nat) :
    ofLine number line = ofLineReport number (.ofTokens tokens) := by
  rw [ofLine, LineReport.ofLine, htokens]
  rfl

theorem ofLine_of_lexError
    {line : Text} {error : LexError}
    (herror : Token.ofLine line = .error error)
    (number : Nat) :
    ofLine number line = ofLexError number line error := by
  rw [ofLine, LineReport.ofLine, herror]
  rfl

/-- The expression of a report consists of words; a line with words has an
expression with words. -/
theorem expression_eq_unwords
    (number : Nat) (line : Text) :
    ∃ parts,
      (ofLine number line).expression = Text.unwords parts ∧
      (∀ part ∈ parts, Text.IsWord part) ∧
      (parts = [] → Text.words line = []) := by
  cases htokens : Token.ofLine line with
  | ok tokens =>
      rw [ofLine_of_tokens htokens]
      refine ⟨tokens.map Token.render, rfl, ?_, ?_⟩
      · intro part hpart
        obtain ⟨token, -, rfl⟩ := List.mem_map.mp hpart
        exact Token.isWord_render token
      · intro hnone
        rw [List.map_eq_nil_iff.mp hnone] at htokens
        exact Token.words_eq_nil_of_ofLine htokens
  | error error =>
      rw [ofLine_of_lexError htokens]
      exact ⟨Text.words line, rfl, fun _ => Text.isWord_of_mem_words, id⟩

/-- The report on the expression of a report is the same report. -/
theorem ofLine_expression
    (number : Nat) (line : Text) :
    ofLine number (ofLine number line).expression = ofLine number line := by
  cases htokens : Token.ofLine line with
  | ok tokens =>
      rw [ofLine_of_tokens htokens]
      exact ofLine_of_tokens (Token.ofLine_renderAll htokens) number
  | error error =>
      have hwords : Text.words (Text.unwords (Text.words line)) = Text.words line :=
        Text.words_unwords fun _ => Text.isWord_of_mem_words
      have hexpression :
          (ofLine number line).expression = Text.unwords (Text.words line) := by
        rw [ofLine_of_lexError htokens]
        rfl
      rw [hexpression, ofLine_of_words hwords]

/-- The expression of a line that is not blank is one line, and is not blank. -/
theorem expression_isLine
    (number : Nat) {line : Text}
    (hinked : Text.allBlank line = false) :
    Text.allBlank (ofLine number line).expression = false ∧
      '\n' ∉ (ofLine number line).expression ∧
      '\r' ∉ (ofLine number line).expression := by
  obtain ⟨parts, hexpression, hparts, hnone⟩ := expression_eq_unwords number line
  have hbreak : ∀ c, Text.isBlank c = true → c ≠ ' ' → c ∉ Text.unwords parts := by
    intro c hblank hspace hmem
    rcases Text.mem_unwords hparts hmem with hc | hc
    · exact hspace hc
    · rw [hblank] at hc
      cases hc
  rw [hexpression]
  refine ⟨?_, hbreak '\n' (by decide) (by decide), hbreak '\r' (by decide) (by decide)⟩
  rw [Bool.eq_false_iff]
  intro hblank
  rw [Text.allBlank_iff_words_eq_nil, Text.words_unwords hparts] at hblank
  rw [Bool.eq_false_iff] at hinked
  exact hinked (Text.allBlank_iff_words_eq_nil.mpr (hnone hblank))

theorem mem_expressions
    {number : Nat} {lines : List Text} {expression : Text}
    (hmem : expression ∈ (ofLines number lines).map Report.expression) :
    ∃ place, ∃ line ∈ lines, expression = (ofLine place line).expression := by
  induction lines generalizing number with
  | nil =>
      cases hmem
  | cons line lines ih =>
      rw [ofLines, List.map_cons, List.mem_cons] at hmem
      rcases hmem with rfl | hmem
      · exact ⟨number, line, List.mem_cons_self, rfl⟩
      · obtain ⟨place, other, hother, rfl⟩ := ih hmem
        exact ⟨place, other, List.mem_cons_of_mem line hother, rfl⟩

theorem ofLines_expressions
    (number : Nat) (lines : List Text) :
    ofLines number ((ofLines number lines).map Report.expression) = ofLines number lines := by
  induction lines generalizing number with
  | nil =>
      rfl
  | cons line lines ih =>
      rw [ofLines, List.map_cons, ofLines, ofLine_expression, ih]

/-- The expressions of reports, below each other, are the lines that have
reports. -/
theorem linesOf_expressions
    (source : Text) :
    linesOf (Text.unlines ((ofSource source).map Report.expression)) =
      (ofSource source).map Report.expression := by
  have hexpressions : ∀ expression ∈ (ofSource source).map Report.expression,
      Text.allBlank expression = false ∧ '\n' ∉ expression ∧ '\r' ∉ expression := by
    intro expression hmem
    obtain ⟨place, line, hline, rfl⟩ := mem_expressions hmem
    have hinked : Text.allBlank line = false := by
      simpa using (List.mem_filter.mp hline).2
    exact expression_isLine place hinked
  have hlines : Text.lines (Text.unlines ((ofSource source).map Report.expression)) =
      (ofSource source).map Report.expression := by
    refine Text.lines_unlines ?_
    intro expression hmem
    obtain ⟨hinked, hbreaks⟩ := hexpressions expression hmem
    refine ⟨?_, hbreaks⟩
    rintro rfl
    cases hinked
  rw [linesOf, hlines, List.filter_eq_self]
  intro expression hmem
  rw [(hexpressions expression hmem).1, Bool.not_false]

/-- The expressions of the reports on a source, below each other, have the
same reports, and the tokens of a line are read back from its expression. -/
theorem expressions_reread :
    (∀ source,
      ofSource (Text.unlines ((ofSource source).map Report.expression)) = ofSource source) ∧
    ∀ line report,
      LineReport.ofLine line = .ok report →
      Token.ofLine report.expression = .ok report.tokens := by
  constructor
  · intro source
    rw [ofSource, linesOf_expressions]
    exact ofLines_expressions 1 (linesOf source)
  · intro line report hline
    obtain ⟨tokens, htokens, rfl⟩ := LineReport.ofLine_eq_ok.mp hline
    exact Token.ofLine_renderAll htokens

/-- Zeros in front and the sign of zero are not kept, nor is a carriage return. -/
theorem expressions_reread_zeros :
    ∃ report,
      LineReport.ofLine " 007 -0\r".toList = .ok report ∧
      report.expression = "7 0".toList ∧
      Token.ofLine report.expression = .ok [.number 7, .number 0] := by
  have hwords : Text.words " 007 -0\r".toList = ["007".toList, "-0".toList] := by
    decide
  have hseven : Token.ofWord "007".toList = .ok (.number 7) :=
    Token.ofWord_of_whole rfl rfl
  have hzero : Token.ofWord "-0".toList = .ok (.number 0) :=
    Token.ofWord_of_whole rfl rfl
  have htokens : Token.ofLine " 007 -0\r".toList = .ok [.number 7, .number 0] := by
    rw [Token.ofLine, hwords, List.mapM_cons, hseven, ok_bind, List.mapM_cons, hzero, ok_bind]
    rfl
  have hline := LineReport.ofLine_eq_ok.mpr ⟨_, htokens, rfl⟩
  exact ⟨_, hline, by decide, expressions_reread.2 _ _ hline⟩

end Report
end InfixCalc
