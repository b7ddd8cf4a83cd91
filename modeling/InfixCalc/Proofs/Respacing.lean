import InfixCalc.Proofs.Sequencing
import InfixCalc.Proofs.WordLanguage
import InfixCalc.Proofs.Words
import InfixCalc.Report.Line

/-!
# Blanks between words

A gap, one blank or more, cuts a line in two lines that are read apart: no word
reaches across it, and it has no word of its own.  What is read from the whole
line is what is read from its parts, and the first word that is no token is the
error of the line, whichever part it is in.

The reading of a line depends on its words only, so it does not matter which
blanks stand in a gap, or whether there are blanks at the ends.

* `Token.ofLine_eq_error_iff` : a line fails with its first word that is no token.
* `Token.ofLine_append_gap` : the tokens of a line with a gap.
* `Text.Respaced.words_eq` : other blanks, same words.
* `Token.gaps_separate` : a gap separates, and which gap it is does not matter.
-/

namespace InfixCalc

/-- One change of the blanks of a line: a gap becomes another gap, or blanks
come to an end of the line. -/
inductive Text.Respaced : Text → Text → Prop where
  | gap (before after : Text) {gap other : Text}
      (old : IsGap gap)
      (new : IsGap other) :
      Respaced (before ++ gap ++ after) (before ++ other ++ after)
  | front (line : Text) {blanks : Text}
      (blank : allBlank blanks = true) :
      Respaced line (blanks ++ line)
  | back (line : Text) {blanks : Text}
      (blank : allBlank blanks = true) :
      Respaced line (line ++ blanks)

theorem Text.Respaced.words_eq
    {line other : Text}
    (hrespaced : Respaced line other) :
    words line = words other := by
  cases hrespaced with
  | gap before after hold hnew =>
      rw [words_append_gap hold, words_append_gap hnew]
  | front line hblank =>
      rw [words_blanks_append hblank]
  | back line hblank =>
      rw [words_append_blanks hblank]

namespace Token

/-- The first word of the line that spells no token. -/
def FirstMalformed (line word : Text) : Prop :=
  ∃ before after,
    Text.words line = before ++ word :: after ∧
    (∀ other ∈ before, ∃ token, Spells other token) ∧
    ∀ token, ¬Spells word token

/-- A line fails with its first word that is no token. -/
theorem ofLine_eq_error_iff
    {line : Text} {error : LexError} :
    ofLine line = .error error ↔
      ∃ word, FirstMalformed line word ∧ error = .malformedNumber word := by
  rw [ofLine, mapM_eq_error]
  constructor
  · rintro ⟨before, word, after, hwords, hbefore, hword⟩
    obtain ⟨rfl, hnone⟩ := ofWord_eq_error_iff.mp hword
    refine ⟨word, ⟨before, after, hwords, ?_, hnone⟩, rfl⟩
    intro other hother
    obtain ⟨token, htoken⟩ := hbefore other hother
    exact ⟨token, ofWord_eq_ok_iff.mp htoken⟩
  · rintro ⟨word, ⟨before, after, hwords, hbefore, hnone⟩, rfl⟩
    refine ⟨before, word, after, hwords, ?_, ofWord_eq_error_iff.mpr ⟨rfl, hnone⟩⟩
    intro other hother
    obtain ⟨token, htoken⟩ := hbefore other hother
    exact ⟨token, ofWord_eq_ok_iff.mpr htoken⟩

theorem exists_ofLine_eq_ok
    {line : Text}
    (hwords : ∀ word, ¬FirstMalformed line word) :
    ∃ tokens, ofLine line = .ok tokens := by
  cases hline : ofLine line with
  | ok tokens =>
      exact ⟨tokens, rfl⟩
  | error error =>
      obtain ⟨word, hword, -⟩ := ofLine_eq_error_iff.mp hline
      exact absurd hword (hwords word)

/-- The reading of a line depends on its words only. -/
theorem ofLine_of_words
    {line other : Text}
    (hwords : Text.words line = Text.words other) :
    ofLine line = ofLine other := by
  rw [ofLine, hwords, ofLine]

theorem lineRecords_of_words
    {line other : Text}
    (hwords : Text.words line = Text.words other) :
    lineRecords line = lineRecords other := by
  rw [lineRecords, hwords, lineRecords]

theorem readings_append_gap
    {gap : Text}
    (hgap : Text.IsGap gap)
    (before after : Text) :
    readings (before ++ gap ++ after) = readings before ++ readings after := by
  rw [readings, Text.words_append_gap hgap, List.map_append, readings, readings]

/-- The tokens of a line with a gap: those before it, then those after it. -/
theorem ofLine_append_gap
    {gap : Text}
    (hgap : Text.IsGap gap)
    (before after : Text) :
    ofLine (before ++ gap ++ after) =
      ofLine before >>= fun first => ofLine after >>= fun second => .ok (first ++ second) := by
  rw [ofLine, Text.words_append_gap hgap, List.mapM_append]
  rfl

/-- The line is read as the two parts are, one after the other. -/
structure Separates (before line after : Text) : Prop where
  /-- Every word is read, also behind one that is no token. -/
  readings_eq : readings line = readings before ++ readings after
  /-- The first word that is no token may be in the first part. -/
  first : ∀ word, FirstMalformed before word →
    ofLine line = .error (.malformedNumber word)
  /-- If it is not, it may be in the second part. -/
  second : (∀ word, ¬FirstMalformed before word) → ∀ word, FirstMalformed after word →
    ofLine line = .error (.malformedNumber word)
  /-- If there is none, the tokens are those of both parts. -/
  both : (∀ word, ¬FirstMalformed before word) → (∀ word, ¬FirstMalformed after word) →
    ∃ earlier later,
      ofLine before = .ok earlier ∧
      ofLine after = .ok later ∧
      ofLine line = .ok (earlier ++ later)

theorem separates_of_gap
    {gap : Text}
    (hgap : Text.IsGap gap)
    (before after : Text) :
    Separates before (before ++ gap ++ after) after := by
  have hline := ofLine_append_gap hgap before after
  refine ⟨readings_append_gap hgap before after, ?_, ?_, ?_⟩
  · intro word hword
    have hbefore := ofLine_eq_error_iff.mpr ⟨word, hword, rfl⟩
    rw [hline, hbefore, error_bind]
  · intro hnone word hword
    obtain ⟨earlier, hbefore⟩ := exists_ofLine_eq_ok hnone
    have hafter := ofLine_eq_error_iff.mpr ⟨word, hword, rfl⟩
    rw [hline, hbefore, ok_bind, hafter, error_bind]
  · intro hbefore hafter
    obtain ⟨earlier, hearlier⟩ := exists_ofLine_eq_ok hbefore
    obtain ⟨later, hlater⟩ := exists_ofLine_eq_ok hafter
    refine ⟨earlier, later, hearlier, hlater, ?_⟩
    rw [hline, hearlier, ok_bind, hlater, ok_bind]

/-- A gap separates what is before it from what is after it.  Which blanks stand
in the gaps of a line and at its ends changes neither its tokens nor its report
nor the records of the report. -/
theorem gaps_separate :
    (∀ before gap after : Text,
      Text.IsGap gap → Separates before (before ++ gap ++ after) after) ∧
    ∀ line other : Text,
      Text.Respaced line other →
      ofLine line = ofLine other ∧
      LineReport.ofLine line = LineReport.ofLine other ∧
      LineReport.records line = LineReport.records other := by
  constructor
  · intro before gap after hgap
    exact separates_of_gap hgap before after
  · intro line other hrespaced
    have hwords := hrespaced.words_eq
    have htokens := ofLine_of_words hwords
    refine ⟨htokens, ?_, ?_⟩
    · rw [LineReport.ofLine, htokens, LineReport.ofLine]
    · rw [LineReport.records, lineRecords_of_words hwords, htokens, LineReport.records]

/-- The word before the gap is the error although one after it is no token
either; a no-break space for a tab and blanks in front change nothing. -/
theorem gaps_separate_two_malformed :
    ofLine ("1 x".toList ++ "\u2003\t".toList ++ "y 2".toList) = .error (.malformedNumber ['x']) ∧
    ofLine ("1".toList ++ "\t".toList ++ "x".toList) =
      ofLine ("1".toList ++ "\u00a0 ".toList ++ "x".toList) ∧
    ofLine "1 x".toList = ofLine ("\u2028".toList ++ "1 x".toList) := by
  have hone : Spells ['1'] (.number 1) := Lexeme.tokenOf?_eq_some_iff.mp rfl
  have hfirst : FirstMalformed "1 x".toList ['x'] :=
    ⟨[['1']], [], by decide, by simpa using ⟨_, hone⟩, Lexeme.tokenOf?_eq_none_iff.mp (by decide)⟩
  refine ⟨(gaps_separate.1 _ _ _ ⟨?_, ?_⟩).first ['x'] hfirst,
    (gaps_separate.2 _ _ (.gap _ _ ⟨?_, ?_⟩ ⟨?_, ?_⟩)).1,
    (gaps_separate.2 _ _ (.front _ ?_)).1⟩
  all_goals decide

end Token
end InfixCalc
