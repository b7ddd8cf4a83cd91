import InfixCalc.Proofs.Rereading
import Mathlib.Data.List.Forall2

/-!
# Lines do not affect each other

The reports on a source are the reports on its lines, one by one and in order.
Whether a line has a report, and what is in it, is decided by its words, and so
neither by other lines nor by its ending; only the number counts the reports
before it.

* `Report.inkedFrom_append` : a line feed separates the lines of two sources.
* `Report.lines_independent` : sources below each other, the numbers of
  reports, and the lines that have one.
-/

namespace InfixCalc
namespace Report

/-- The words of the lines that have words, after the characters `opened` of a
line that has not ended yet, last character first. -/
def inkedFrom (opened text : Text) : List (List Text) :=
  ((Text.linesFrom opened text).map Text.words).filter (· ≠ [])

theorem map_words_linesOf
    (source : Text) :
    (linesOf source).map Text.words = inkedFrom [] source := by
  rw [linesOf, inkedFrom, List.filter_map, ← Text.lines]
  congr 1
  apply List.filter_congr
  intro line _
  simp [← Text.allBlank_iff_words_eq_nil]

theorem words_dropReturn
    (opened : Text) :
    Text.words (Text.dropReturn opened).reverse = Text.words opened.reverse := by
  unfold Text.dropReturn
  split
  · next rest =>
      rw [List.reverse_cons, Text.words_append_blank (by decide)]
      exact (List.append_nil _).symm
  · rfl

theorem inkedFrom_nil
    (opened : Text) :
    inkedFrom opened [] = [Text.words opened.reverse].filter (· ≠ []) := by
  cases opened <;> rfl

theorem inkedFrom_cons_feed
    (opened rest : Text) :
    inkedFrom opened ('\n' :: rest) = inkedFrom opened [] ++ inkedFrom [] rest := by
  rw [inkedFrom_nil, inkedFrom, inkedFrom, Text.linesFrom_cons_feed, Text.lines, List.map_cons,
    words_dropReturn, ← List.singleton_append, List.filter_append]

theorem inkedFrom_cons_of_ne
    {c : Char}
    (hc : c ≠ '\n')
    (opened rest : Text) :
    inkedFrom opened (c :: rest) = inkedFrom (c :: opened) rest := by
  rw [inkedFrom, Text.linesFrom_cons_of_ne hc, inkedFrom]

/-- The words of a line that is open at the end of a source do not change when
it gets an ending. -/
theorem inkedFrom_append
    (opened first second : Text) :
    inkedFrom opened (first ++ '\n' :: second) =
      inkedFrom opened first ++ inkedFrom [] second := by
  induction first generalizing opened with
  | nil =>
      exact inkedFrom_cons_feed opened second
  | cons c first ih =>
      rw [List.cons_append]
      by_cases hc : c = '\n'
      · rw [hc, inkedFrom_cons_feed, inkedFrom_cons_feed, ih, List.append_assoc]
      · rw [inkedFrom_cons_of_ne hc, inkedFrom_cons_of_ne hc, ih]

/-- A report with another number. -/
def withNumber (number : Nat) (report : Report) : Report :=
  { report with number := number }

@[simp] theorem number_ofLine
    (number : Nat) (line : Text) :
    (ofLine number line).number = number := by
  unfold ofLine
  split <;> rfl

theorem withNumber_ofLine
    (number other : Nat) (line : Text) :
    (ofLine number line).withNumber other = ofLine other line := by
  unfold ofLine
  split <;> rfl

theorem ofLines_of_words
    {lines others : List Text}
    (hwords : lines.map Text.words = others.map Text.words)
    (number : Nat) :
    ofLines number lines = ofLines number others := by
  induction lines generalizing others number with
  | nil =>
      rw [List.map_nil, eq_comm, List.map_eq_nil_iff] at hwords
      rw [hwords]
  | cons line lines ih =>
      cases others with
      | nil =>
          cases hwords
      | cons other others =>
          injection hwords with hline hlines
          rw [ofLines, ofLines, ofLine_of_words hline, ih hlines]

@[simp] theorem length_ofLines
    (number : Nat) (lines : List Text) :
    (ofLines number lines).length = lines.length := by
  induction lines generalizing number with
  | nil =>
      rfl
  | cons line lines ih =>
      rw [ofLines, List.length_cons, List.length_cons, ih]

theorem ofLines_append
    (number : Nat) (first second : List Text) :
    ofLines number (first ++ second) =
      ofLines number first ++ ofLines (number + first.length) second := by
  induction first generalizing number with
  | nil =>
      rfl
  | cons line first ih =>
      rw [List.cons_append, ofLines, ofLines, ih, List.length_cons, List.cons_append,
        Nat.add_assoc, Nat.add_comm 1]

theorem ofLines_add
    (number count : Nat) (lines : List Text) :
    ofLines (number + count) lines =
      (ofLines number lines).map fun report => report.withNumber (report.number + count) := by
  induction lines generalizing number with
  | nil =>
      rfl
  | cons line lines ih =>
      rw [ofLines, ofLines, List.map_cons, number_ofLine, withNumber_ofLine, ← ih,
        Nat.add_right_comm]

theorem map_number_ofLines
    (number : Nat) (lines : List Text) :
    (ofLines number lines).map Report.number = List.range' number lines.length := by
  induction lines generalizing number with
  | nil =>
      rfl
  | cons line lines ih =>
      rw [ofLines, List.map_cons, number_ofLine, ih, List.length_cons, List.range'_succ]

/-- A source that is one line with words has the report on this line. -/
theorem ofSource_of_line
    {line : Text}
    (hfeed : '\n' ∉ line) (hinked : Text.allBlank line = false) :
    ofSource line = [ofLine 1 line] := by
  have hne : line ≠ [] := by
    rintro rfl
    cases hinked
  rw [ofSource, linesOf, Text.lines_of_no_feed hne hfeed, List.filter_singleton, hinked]
  rfl

theorem no_feed_of_cut
    {text line : Text} {parts : List Text}
    (hcut : Text.Cut text parts) (hmem : line ∈ parts) :
    '\n' ∉ line := by
  induction hcut with
  | empty =>
      cases hmem
  | unended _ hline =>
      rw [List.mem_singleton.mp hmem]
      exact hline
  | feed hline _ _ ih =>
      rcases List.mem_cons.mp hmem with rfl | hmem
      · exact hline
      · exact ih hmem
  | returnFeed hline _ ih =>
      rcases List.mem_cons.mp hmem with rfl | hmem
      · exact hline
      · exact ih hmem

theorem forall₂_ofLines
    {lines : List Text}
    (hlines : ∀ line ∈ lines, ofSource line = [ofLine 1 line])
    (number : Nat) :
    List.Forall₂ (fun line report => ofSource line = [report.withNumber 1])
      lines (ofLines number lines) := by
  induction lines generalizing number with
  | nil =>
      exact .nil
  | cons line lines ih =>
      rw [List.forall_mem_cons] at hlines
      refine .cons ?_ (ih hlines.2 (number + 1))
      rw [withNumber_ofLine]
      exact hlines.1

/-- Two sources below each other have the reports of the first and then those
of the second, with numbers that go on.  The reports on a source are numbered
from one without gaps.  There is one for each of its lines with a character
that is not blank, and but for its number it is the only report on that line
alone. -/
theorem lines_independent :
    (∀ first second,
      ofSource (first ++ '\n' :: second) =
        ofSource first ++
          (ofSource second).map fun report =>
            { report with number := report.number + (ofSource first).length }) ∧
    (∀ source,
      (ofSource source).map Report.number = List.range' 1 (ofSource source).length) ∧
    ∀ source, ∃ parts,
      (∀ others, Text.Cut source others ↔ others = parts) ∧
      List.Forall₂ (fun line report => ofSource line = [{ report with number := 1 }])
        (parts.filter fun line => line.any fun c => !Text.isBlank c)
        (ofSource source) := by
  refine ⟨?_, ?_, ?_⟩
  · intro first second
    -- the joined source can lose a carriage return at the end of `first`, so the
    -- lines are compared by their words
    have hwords :
        (linesOf (first ++ '\n' :: second)).map Text.words =
          (linesOf first ++ linesOf second).map Text.words := by
      rw [List.map_append, map_words_linesOf, map_words_linesOf, map_words_linesOf,
        inkedFrom_append]
    rw [ofSource, ofLines_of_words hwords, ofLines_append, ofLines_add]
    simp only [ofSource, length_ofLines, withNumber]
  · intro source
    rw [ofSource, map_number_ofLines, length_ofLines]
  · intro source
    refine ⟨Text.lines source, ?_, ?_⟩
    · intro others
      rw [Text.cut_iff_lines_eq, eq_comm]
    · have hfilter :
          ((Text.lines source).filter fun line => line.any fun c => !Text.isBlank c) =
            linesOf source := by
        apply List.filter_congr
        intro line _
        rw [Text.allBlank, List.not_all_eq_any_not]
      rw [hfilter]
      refine forall₂_ofLines ?_ 1
      intro line hline
      obtain ⟨hmem, hinked⟩ := List.mem_filter.mp hline
      exact ofSource_of_line (no_feed_of_cut (Text.cut_lines source) hmem) (by simpa using hinked)

end Report
end InfixCalc
