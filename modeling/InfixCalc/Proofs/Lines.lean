import InfixCalc.Text.Lines
import InfixCalc.Text.Words

/-!
# Lines and their endings

The lines of a text are what is left of it when it is cut at its endings: a
line feed, or a carriage return and a line feed.  Lines without endings in
them that are written below each other are read back.

* `Cut` : a text and its lines.
* `cut_iff_lines_eq` : every text is cut in one way.
* `lines_unlines` : lines are read back.
-/

namespace InfixCalc
namespace Text

/-- A text and the lines that it is cut into. -/
inductive Cut : Text → List Text → Prop
  | empty :
      Cut [] []
  /-- What follows the last ending is a line if it is not empty. -/
  | unended {line : Text} :
      line ≠ [] →
      '\n' ∉ line →
      Cut line [line]
  /-- A line that ends at a line feed alone. -/
  | feed {line rest : Text} {later : List Text} :
      '\n' ∉ line →
      line.getLast? ≠ some '\r' →
      Cut rest later →
      Cut (line ++ '\n' :: rest) (line :: later)
  /-- A line that ends at a carriage return and a line feed. -/
  | returnFeed {line rest : Text} {later : List Text} :
      '\n' ∉ line →
      Cut rest later →
      Cut (line ++ '\r' :: '\n' :: rest) (line :: later)

theorem linesFrom_cons_feed
    (opened rest : Text) :
    linesFrom opened ('\n' :: rest) = (dropReturn opened).reverse :: lines rest := by
  cases opened <;> rfl

theorem linesFrom_cons_of_ne
    {c : Char}
    (hc : c ≠ '\n')
    (opened rest : Text) :
    linesFrom opened (c :: rest) = linesFrom (c :: opened) rest := by
  cases opened <;> exact if_neg hc

/-- Characters that are no line feeds are added to the line that is open. -/
theorem linesFrom_append
    {line : Text}
    (hline : '\n' ∉ line)
    (opened rest : Text) :
    linesFrom opened (line ++ rest) = linesFrom (line.reverse ++ opened) rest := by
  induction line generalizing opened with
  | nil =>
      rfl
  | cons c line ih =>
      rw [List.mem_cons, not_or] at hline
      rw [List.cons_append, linesFrom_cons_of_ne (Ne.symm hline.1), ih hline.2,
        List.reverse_cons, List.append_assoc, List.singleton_append]

/-- The first line of a text with a line feed. -/
theorem lines_append_feed
    {line : Text}
    (hline : '\n' ∉ line)
    (rest : Text) :
    lines (line ++ '\n' :: rest) = (dropReturn line.reverse).reverse :: lines rest := by
  rw [lines, linesFrom_append hline, linesFrom_cons_feed, List.append_nil]

theorem lines_of_no_feed
    {line : Text}
    (hne : line ≠ [])
    (hline : '\n' ∉ line) :
    lines line = [line] := by
  have happend := linesFrom_append hline [] []
  rw [List.append_nil, List.append_nil] at happend
  rw [lines, happend]
  cases hreverse : line.reverse with
  | nil =>
      exact absurd (List.reverse_eq_nil_iff.mp hreverse) hne
  | cons c opened =>
      rw [linesFrom, ← hreverse, List.reverse_reverse]

theorem dropReturn_append_return
    (line : Text) :
    (dropReturn (line ++ ['\r']).reverse).reverse = line := by
  rw [List.reverse_append, List.reverse_singleton, List.singleton_append, dropReturn,
    List.reverse_reverse]

theorem dropReturn_of_getLast?
    {line : Text}
    (hreturn : line.getLast? ≠ some '\r') :
    (dropReturn line.reverse).reverse = line := by
  rw [← List.head?_reverse] at hreturn
  rw [dropReturn, List.reverse_reverse]
  intro rest hreverse
  exact hreturn (by rw [hreverse, List.head?_cons])

theorem lines_eq_of_cut
    {text : Text} {parts : List Text}
    (hcut : Cut text parts) :
    lines text = parts := by
  induction hcut with
  | empty =>
      rfl
  | unended hne hline =>
      exact lines_of_no_feed hne hline
  | feed hline hreturn _ ih =>
      rw [lines_append_feed hline, dropReturn_of_getLast? hreturn, ih]
  | @returnFeed line rest later hline _ ih =>
      have hsplit : line ++ '\r' :: '\n' :: rest = (line ++ ['\r']) ++ '\n' :: rest := by
        simp
      rw [hsplit, lines_append_feed (by simpa using hline), dropReturn_append_return, ih]

theorem cut_lines
    (text : Text) :
    Cut text (lines text) := by
  -- by recursion on what follows the first line feed
  by_cases hfeed : '\n' ∈ text
  · obtain ⟨line, rest, hsplit, hline⟩ := List.eq_append_cons_of_mem hfeed
    have hrest := cut_lines rest
    rw [hsplit, lines_append_feed hline]
    by_cases hreturn : line.getLast? = some '\r'
    · obtain ⟨before, rfl⟩ := List.getLast?_eq_some_iff.mp hreturn
      rw [dropReturn_append_return, List.append_assoc, List.singleton_append]
      exact .returnFeed (fun hmem => hline (List.mem_append_left _ hmem)) hrest
    · rw [dropReturn_of_getLast? hreturn]
      exact .feed hline hreturn hrest
  · by_cases hne : text = []
    · subst hne
      exact .empty
    · rw [lines_of_no_feed hne hfeed]
      exact .unended hne hfeed
  termination_by text.length
  decreasing_by
    rw [hsplit, List.length_append, List.length_cons]
    omega

/-- Every text is cut into lines in one way. -/
theorem cut_iff_lines_eq
    {text : Text} {parts : List Text} :
    Cut text parts ↔ lines text = parts := by
  constructor
  · exact lines_eq_of_cut
  · rintro rfl
    exact cut_lines text

/-- The characters of lines are those of the text. -/
theorem mem_of_cut
    {text line : Text} {parts : List Text} {c : Char}
    (hcut : Cut text parts) (hline : line ∈ parts) (hc : c ∈ line) :
    c ∈ text := by
  induction hcut with
  | empty =>
      cases hline
  | unended _ _ =>
      rwa [List.mem_singleton.mp hline] at hc
  | feed _ _ _ ih =>
      rcases List.mem_cons.mp hline with rfl | hlater
      · exact List.mem_append_left _ hc
      · simp [ih hlater]
  | returnFeed _ _ ih =>
      rcases List.mem_cons.mp hline with rfl | hlater
      · exact List.mem_append_left _ hc
      · simp [ih hlater]

/-- Lines without endings that are written below each other are read back. -/
theorem lines_unlines
    {parts : List Text}
    (hparts : ∀ part ∈ parts, part ≠ [] ∧ '\n' ∉ part ∧ '\r' ∉ part) :
    lines (unlines parts) = parts := by
  induction parts with
  | nil =>
      rfl
  | cons part rest ih =>
      obtain ⟨hne, hfeed, hreturn⟩ := hparts part List.mem_cons_self
      have hrest := ih fun line hline => hparts line (List.mem_cons_of_mem part hline)
      cases rest with
      | nil =>
          exact lines_of_no_feed hne hfeed
      | cons next rest =>
          have hlast : part.getLast? ≠ some '\r' := by
            intro hlast
            exact hreturn (List.mem_of_getLast? hlast)
          change lines ((part ++ ['\n']) ++ unlines (next :: rest)) = _
          rw [List.append_assoc, List.singleton_append, lines_append_feed hfeed,
            dropReturn_of_getLast? hlast, hrest]

end Text
end InfixCalc
