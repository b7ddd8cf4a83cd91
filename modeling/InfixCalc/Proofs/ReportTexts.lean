import InfixCalc.Proofs.SourceLines

/-!
# Texts of reports

Whatever a line contains, the text of its report has five lines, because every
part of the report is written without blanks other than spaces: the words of a
line have no blanks, numbers and symbols have none, and the messages of errors
are made of these.  So the lines of a text of reports tell the reports apart,
and the expressions among them determine everything else.

* `Text.IsSpaced` : a text that takes one line.
* `Report.isSpaced_ofLine` : the parts of a report take one line each.
* `Report.splitOn_renderAll` : the lines of the text of reports.
* `Report.renderAll_faithful` : texts of reports are in groups of five lines,
  and determine the reports.
-/

namespace InfixCalc

namespace Text

/-- A text without blanks other than spaces; it has no line break of any kind. -/
def IsSpaced (text : Text) : Prop :=
  ∀ c ∈ text, isBlank c = true → c = ' '

theorem isSpaced_iff_all
    {text : Text} :
    IsSpaced text ↔ (text.all fun c => !isBlank c || c = ' ') = true := by
  simp only [IsSpaced, List.all_eq_true, Bool.or_eq_true, decide_eq_true_eq, Bool.not_eq_true',
    or_iff_not_imp_left, Bool.not_eq_false]

instance decidableIsSpaced
    (text : Text) :
    Decidable (IsSpaced text) :=
  decidable_of_iff _ isSpaced_iff_all.symm

theorem IsSpaced.append
    {first second : Text}
    (hfirst : IsSpaced first) (hsecond : IsSpaced second) :
    IsSpaced (first ++ second) := by
  intro c hc
  rcases List.mem_append.mp hc with hc | hc
  · exact hfirst c hc
  · exact hsecond c hc

/-- Messages stand around a text that depends on the line. -/
theorem IsSpaced.framed
    {text front back : Text}
    (htext : IsSpaced text) (hfront : IsSpaced front) (hback : IsSpaced back) :
    IsSpaced (front ++ text ++ back) :=
  (hfront.append htext).append hback

theorem IsSpaced.feed_notMem
    {text : Text}
    (hspaced : IsSpaced text) :
    '\n' ∉ text := by
  intro hfeed
  cases hspaced '\n' hfeed (by decide)

theorem IsWord.isSpaced
    {word : Text}
    (hword : IsWord word) :
    IsSpaced word := by
  intro c hc hblank
  rw [hword.inked c hc] at hblank
  cases hblank

theorem isSpaced_unwords
    {parts : List Text}
    (hparts : ∀ part ∈ parts, IsWord part) :
    IsSpaced (unwords parts) := by
  intro c hc hblank
  rcases mem_unwords hparts hc with hspace | hinked
  · exact hspace
  · rw [hinked] at hblank
    cases hblank

theorem isSpaced_ofNat
    (n : Nat) :
    IsSpaced (ofNat n) := by
  intro c hc hblank
  rw [Token.isBlank_of_isDigit (isDigit_of_mem_ofNat hc)] at hblank
  cases hblank

theorem isSpaced_ofValue
    (value : Value) :
    IsSpaced (ofValue value) :=
  (Token.isWord_render (.number value)).isSpaced

theorem count_endedLines
    {lines : List Text}
    (hlines : ∀ line ∈ lines, '\n' ∉ line) :
    (lines.flatMap fun line => line ++ ['\n']).count '\n' = lines.length := by
  induction lines with
  | nil =>
      rfl
  | cons line lines ih =>
      obtain ⟨hline, hlines⟩ := List.forall_mem_cons.mp hlines
      rw [List.flatMap_cons, List.count_append, List.count_append, ih hlines,
        List.count_eq_zero_of_not_mem hline, List.count_singleton_self, List.length_cons]
      omega

theorem splitOn_endedLines
    {lines : List Text}
    (hlines : ∀ line ∈ lines, '\n' ∉ line) :
    (lines.flatMap fun line => line ++ ['\n']).splitOn '\n' = lines ++ [[]] := by
  induction lines with
  | nil =>
      rfl
  | cons line lines ih =>
      obtain ⟨hline, hlines⟩ := List.forall_mem_cons.mp hlines
      have hbefore : ∀ c ∈ line, (c == '\n') = false := by
        intro c hc
        rw [beq_eq_false_iff_ne]
        rintro rfl
        exact hline hc
      rw [List.flatMap_cons, List.append_assoc, List.singleton_append, List.splitOn_eq_splitOnP,
        List.splitOnP_append_cons_of_forall_mem hbefore '\n' (by decide),
        ← List.splitOn_eq_splitOnP, ih hlines, List.cons_append]

end Text

open Text

section Messages

theorem Operator.isSpaced_render
    (op : Operator) :
    IsSpaced op.render :=
  (Token.isWord_render (.operator op)).isSpaced

theorem ParseError.isSpaced_message
    (error : ParseError) :
    IsSpaced error.message := by
  cases error with
  | unbalancedParenthesis =>
      decide
  | missingOperand op =>
      exact op.isSpaced_render.framed (by decide) (by decide)
  | nestingTooDeep limit =>
      exact (isSpaced_ofNat limit).framed (by decide) (by decide)
  | treeTooDeep limit =>
      exact (isSpaced_ofNat limit).framed (by decide) (by decide)
  | emptyExpression =>
      decide
  | unexpectedToken token =>
      exact .append (by decide) (Token.isWord_render token).isSpaced

theorem EvalError.isSpaced_message
    (error : EvalError) :
    IsSpaced error.message := by
  cases error with
  | insufficientOperands op =>
      exact op.isSpaced_render.framed (by decide) (by decide)
  | divisionByZero =>
      decide
  | moduloByZero =>
      decide
  | malformedExpression count =>
      exact (isSpaced_ofNat count).framed (by decide) (by decide)
  | unknownOperator token =>
      exact .append (by decide) (Token.isWord_render token).isSpaced
  | invalidExponent exponent =>
      exact .append (by decide) (isSpaced_ofValue exponent)
  | overflow op left right =>
      have hleft : IsSpaced ("integer overflow in ".toList ++ ofValue left ++ [' ']) :=
        (isSpaced_ofValue left).framed (by decide) (by decide)
      exact ((hleft.append op.isSpaced_render).append (by decide)).append (isSpaced_ofValue right)

/-- The message for a line names one of its words. -/
theorem Token.isSpaced_message_of_ofLine
    {line : Text} {error : LexError}
    (herror : Token.ofLine line = .error error) :
    IsSpaced error.message := by
  rw [Token.ofLine, mapM_eq_error] at herror
  obtain ⟨before, word, after, hwords, -, hword⟩ := herror
  cases Token.eq_malformedNumber_of_ofWord hword
  have hmem : word ∈ words line := by
    rw [hwords]
    exact List.mem_append_right before List.mem_cons_self
  exact (isWord_of_mem_words hmem).isSpaced.framed (by decide) (by decide)

end Messages

section Outcomes

variable {α ε : Type} {text : α → Text} {message : ε → Text}

theorem Outcome.isSpaced_error
    {found : Text}
    (hfound : IsSpaced found) :
    IsSpaced ((Outcome.error found).render text) :=
  .append (by decide) hfound

theorem Outcome.isSpaced_ofExcept
    {result : Except ε α}
    (hvalue : ∀ value, result = .ok value → IsSpaced (text value))
    (herror : ∀ error, result = .error error → IsSpaced (message error)) :
    IsSpaced ((Outcome.ofExcept message result).render text) := by
  cases result with
  | ok value =>
      exact hvalue value rfl
  | error error =>
      exact Outcome.isSpaced_error (herror error rfl)

/-- Going on after parsing never fails with an error of reading. -/
theorem LineReport.isSpaced_evaluateWith
    (evaluate : α → Except EvalError Value) (parsed : Except ParseError α) :
    IsSpaced ((Outcome.ofExcept Failure.message (evaluateWith evaluate parsed)).render ofValue) := by
  refine Outcome.isSpaced_ofExcept (fun value _ => isSpaced_ofValue value) ?_
  intro failure hfailure
  cases parsed with
  | error error =>
      cases hfailure
      exact error.isSpaced_message
  | ok built =>
      cases hevaluate : evaluate built with
      | ok value =>
          rw [evaluateWith, hevaluate] at hfailure
          cases hfailure
      | error error =>
          rw [evaluateWith, hevaluate] at hfailure
          cases hfailure
          exact error.isSpaced_message

theorem LineReport.isSpaced_rpnOutcome
    (report : LineReport) :
    IsSpaced (report.rpnOutcome.render id) := by
  refine Outcome.isSpaced_ofExcept ?_ fun error _ => error.isSpaced_message
  intro shown hshown
  cases hrpn : report.rpn with
  | error error =>
      rw [hrpn] at hshown
      cases hshown
  | ok rpn =>
      rw [hrpn] at hshown
      cases hshown
      refine isSpaced_unwords ?_
      intro part hpart
      obtain ⟨token, -, rfl⟩ := List.mem_map.mp hpart
      exact Token.isWord_render token

end Outcomes

namespace Report

/-- A report whose parts take one line each. -/
structure IsSpaced (report : Report) : Prop where
  expression : Text.IsSpaced report.expression
  rpn : Text.IsSpaced (report.rpn.render id)
  rpnValue : Text.IsSpaced (report.rpnValue.render ofValue)
  treeValue : Text.IsSpaced (report.treeValue.render ofValue)

/-- The parts of a report take one line each, whatever its line contains. -/
theorem isSpaced_ofLine
    (number : Nat) (line : Text) :
    (ofLine number line).IsSpaced := by
  obtain ⟨parts, hexpression, hparts, -⟩ := expression_eq_unwords number line
  have hspaced : Text.IsSpaced (ofLine number line).expression := by
    rw [hexpression]
    exact isSpaced_unwords hparts
  cases htokens : Token.ofLine line with
  | ok tokens =>
      rw [ofLine_of_tokens htokens] at hspaced ⊢
      exact ⟨hspaced, LineReport.isSpaced_rpnOutcome _, LineReport.isSpaced_evaluateWith _ _,
        LineReport.isSpaced_evaluateWith _ _⟩
  | error error =>
      have hmessage := Token.isSpaced_message_of_ofLine htokens
      rw [ofLine_of_lexError htokens] at hspaced ⊢
      exact ⟨hspaced, Outcome.isSpaced_error hmessage, Outcome.isSpaced_error hmessage,
        Outcome.isSpaced_error hmessage⟩

theorem isSpaced_of_mem_ofLines
    {number : Nat} {lines : List Text} {report : Report}
    (hmem : report ∈ ofLines number lines) :
    report.IsSpaced := by
  induction lines generalizing number with
  | nil =>
      cases hmem
  | cons line lines ih =>
      rcases List.mem_cons.mp hmem with rfl | hmem
      · exact isSpaced_ofLine number line
      · exact ih hmem

/-- The lines of the text of a report with the given number; the last one is
empty. -/
def textLines (number : Nat) (report : Report) : List Text :=
  ["Expression number: ".toList ++ ofNat number,
   "Infix expression: ".toList ++ report.expression,
   "Postfix expression: ".toList ++ report.rpn.render id,
   "Postfix eval: ".toList ++ report.rpnValue.render ofValue ++
     " Tree eval: ".toList ++ report.treeValue.render ofValue,
   []]

theorem isSpaced_of_mem_textLines
    {report : Report}
    (hreport : report.IsSpaced)
    {number : Nat} {line : Text}
    (hmem : line ∈ textLines number report) :
    Text.IsSpaced line := by
  simp only [textLines, List.mem_cons, List.not_mem_nil, or_false] at hmem
  rcases hmem with rfl | rfl | rfl | rfl | rfl
  · exact .append (by decide) (isSpaced_ofNat number)
  · exact .append (by decide) hreport.expression
  · exact .append (by decide) hreport.rpn
  · exact (hreport.rpnValue.framed (by decide) (by decide)).append hreport.treeValue
  · decide

/-- The lines of the texts of reports, numbered as the reports are. -/
def allTextLines (reports : List Report) : List Text :=
  reports.flatMap fun report => textLines report.number report

theorem render_eq
    (report : Report) :
    report.render ++ ['\n'] =
      (textLines report.number report).flatMap fun line => line ++ ['\n'] := by
  unfold render textLines
  -- the labels are made opaque, or `simp` spells them out
  generalize "Expression number: ".toList = number
  generalize "Infix expression: ".toList = infixLabel
  generalize "Postfix expression: ".toList = postfixLabel
  generalize "Postfix eval: ".toList = postfixValue
  generalize " Tree eval: ".toList = treeValue
  simp

theorem renderAll_eq
    (reports : List Report) :
    renderAll reports = (allTextLines reports).flatMap fun line => line ++ ['\n'] := by
  induction reports with
  | nil =>
      rfl
  | cons report reports ih =>
      rw [allTextLines, List.flatMap_cons, List.flatMap_append, ← allTextLines, ← ih, ← render_eq]
      rfl

theorem length_allTextLines
    (reports : List Report) :
    (allTextLines reports).length = 5 * reports.length := by
  induction reports with
  | nil =>
      rfl
  | cons report reports ih =>
      rw [allTextLines, List.flatMap_cons, List.length_append, ← allTextLines, ih]
      simp [textLines]
      omega

theorem allTextLines_ofLines
    (number : Nat) (lines : List Text) :
    allTextLines (ofLines number lines) =
      ((ofLines number lines).mapIdx fun place report =>
        textLines (number + place) report).flatten := by
  induction lines generalizing number with
  | nil =>
      rfl
  | cons line lines ih =>
      rw [ofLines, allTextLines, List.flatMap_cons, ← allTextLines, ih, List.mapIdx_cons,
        List.flatten_cons, number_ofLine]
      simp only [Nat.add_zero, Nat.add_assoc, Nat.add_comm 1]

/-- The lines of a text determine the expressions. -/
theorem expressions_of_allTextLines
    {first second : List Report}
    (hlines : allTextLines first = allTextLines second) :
    first.map Report.expression = second.map Report.expression := by
  induction first generalizing second with
  | nil =>
      cases second with
      | nil =>
          rfl
      | cons other second =>
          cases hlines
  | cons report first ih =>
      cases second with
      | nil =>
          cases hlines
      | cons other second =>
          simp only [allTextLines, List.flatMap_cons, textLines, List.cons_append,
            List.nil_append, List.cons.injEq, List.append_cancel_left_eq, true_and] at hlines
          obtain ⟨-, hexpression, -, -, hlater⟩ := hlines
          rw [List.map_cons, List.map_cons, hexpression, ih hlater]

/-- The expressions of the reports on a source determine the reports. -/
theorem ofSource_of_expressions
    {first second : Text}
    (hexpressions :
      (ofSource first).map Report.expression = (ofSource second).map Report.expression) :
    ofSource first = ofSource second := by
  have hfirst := ofLines_expressions 1 (linesOf first)
  have hsecond := ofLines_expressions 1 (linesOf second)
  rw [← ofSource] at hfirst hsecond
  rw [← hfirst, hexpressions, hsecond]

theorem isSpaced_of_mem_allTextLines
    {source line : Text}
    (hmem : line ∈ allTextLines (ofSource source)) :
    Text.IsSpaced line := by
  obtain ⟨report, hreport, hline⟩ := List.mem_flatMap.mp hmem
  exact isSpaced_of_mem_textLines (isSpaced_of_mem_ofLines hreport) hline

/-- The lines of the text of reports are those of its reports. -/
theorem splitOn_renderAll
    (source : Text) :
    (renderAll (ofSource source)).splitOn '\n' = allTextLines (ofSource source) ++ [[]] := by
  rw [renderAll_eq]
  exact splitOn_endedLines fun _ hline => (isSpaced_of_mem_allTextLines hline).feed_notMem

/-- The text of the reports on a source has five line feeds for each report, and
between them it has the lines of one report after the other, the number of a
report being its place.  No other line break is in it.  Sources have the same
text only if they have the same reports. -/
theorem renderAll_faithful :
    (∀ source,
      (renderAll (ofSource source)).count '\n' = 5 * (ofSource source).length ∧
      (renderAll (ofSource source)).splitOn '\n' =
        ((ofSource source).mapIdx fun place report => textLines (place + 1) report).flatten ++
          [[]] ∧
      (renderAll (ofSource source)).all (fun c => !isBlank c || c = ' ' || c = '\n') = true) ∧
    ∀ first second,
      renderAll (ofSource first) = renderAll (ofSource second) →
      ofSource first = ofSource second := by
  constructor
  · intro source
    have hlines : ∀ line ∈ allTextLines (ofSource source), Text.IsSpaced line :=
      fun _ => isSpaced_of_mem_allTextLines
    refine ⟨?_, ?_, ?_⟩
    · rw [renderAll_eq, count_endedLines fun line hline => (hlines line hline).feed_notMem,
        length_allTextLines]
    · rw [splitOn_renderAll, ofSource, allTextLines_ofLines]
      simp only [Nat.add_comm 1]
    · rw [renderAll_eq, List.all_flatMap, List.all_eq_true]
      intro line hline
      rw [List.all_append, Bool.and_eq_true, List.all_eq_true]
      refine ⟨?_, by decide⟩
      intro c hc
      rw [List.all_eq_true.mp (isSpaced_iff_all.mp (hlines line hline)) c hc, Bool.true_or]
  · intro first second htext
    have hsplit := splitOn_renderAll first
    rw [htext, splitOn_renderAll] at hsplit
    exact ofSource_of_expressions
      (expressions_of_allTextLines (List.append_cancel_right hsplit).symm)

/-- Blanks between words, endings and blank lines are not in the text. -/
theorem renderAll_faithful_blanks :
    renderAll (ofSource "1\t+ x\r\n\n".toList) = renderAll (ofSource " 1 + x".toList) ∧
      ofSource "1\t+ x\r\n\n".toList = ofSource " 1 + x".toList := by
  have hfirst : linesOf "1\t+ x\r\n\n".toList = ["1\t+ x".toList] := by
    decide
  have hsecond : linesOf " 1 + x".toList = [" 1 + x".toList] := by
    decide
  have hwords : words "1\t+ x".toList = words " 1 + x".toList := by
    decide
  have htext :
      renderAll (ofSource "1\t+ x\r\n\n".toList) = renderAll (ofSource " 1 + x".toList) := by
    rw [ofSource, hfirst, ofLines, ofLine_of_words hwords, ofSource, hsecond]
    rfl
  exact ⟨htext, renderAll_faithful.2 _ _ htext⟩

end Report
end InfixCalc
