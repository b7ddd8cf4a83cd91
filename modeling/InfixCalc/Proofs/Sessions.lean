import InfixCalc.Session
import Mathlib.Algebra.Ring.Parity
import Mathlib.Data.List.TakeWhile

/-!
# What a session remembers

A session only remembers whether trees are shown, and only the command `:tree`
changes that.  So an answer depends on the lines before it through the parity
of such commands and through nothing else.

* `Session.showTree_after` : trees are shown after an odd number of switches.
* `Session.exit_answer` : which lines end a session.
* `Session.outlineApart_plainEntries` : what showing trees changes in an answer.
-/

namespace InfixCalc
namespace Session

/-- The session after lines, whether they end it or not. -/
def after (session : Session) (lines : List Text) : Session :=
  lines.foldl (fun earlier line => (earlier.answer line).session) session

/-- A line that switches trees on or off. -/
def isSwitch (line : Text) : Bool :=
  Text.trim line = ":tree".toList

/-- A line that ends a session. -/
def isExit (line : Text) : Bool :=
  [":q".toList, ":quit".toList, ":exit".toList].contains (Text.trim line)

@[simp] theorem after_nil
    (session : Session) :
    session.after [] = session := by
  rfl

@[simp] theorem after_cons
    (session : Session) (line : Text) (rest : List Text) :
    session.after (line :: rest) = (session.answer line).session.after rest := by
  rfl

section Answers

variable {line : Text}

theorem kindOf_of_colon
    {rest : Text}
    (htrim : Text.trim line = ':' :: rest) :
    kindOf line = .command (':' :: rest) := by
  unfold kindOf
  rw [htrim]
  rfl

theorem kindOf_of_ne_colon
    {c : Char} {rest : Text}
    (htrim : Text.trim line = c :: rest)
    (hc : c ≠ ':') :
    kindOf line = .expression (c :: rest) := by
  unfold kindOf
  rw [htrim]
  split
  · next hnone =>
      cases hnone
  · next found hcolon =>
      exact absurd (List.cons.inj hcolon).1 hc
  · rfl

theorem answer_of_command
    (hcolon : (Text.trim line).head? = some ':')
    (session : Session) :
    session.answer line = session.answerCommand (Text.trim line) := by
  obtain ⟨rest, htrim⟩ := List.head?_eq_some_iff.mp hcolon
  rw [answer, kindOf_of_colon htrim, htrim]

/-- The entries for a line that is no command. -/
def plainEntries (showTree : Bool) (line : Text) : List Text :=
  if Text.trim line = [] then [] else expressionEntries showTree (Text.trim line)

theorem answer_of_no_command
    (hcolon : (Text.trim line).head? ≠ some ':')
    (session : Session) :
    session.answer line = ⟨plainEntries session.showTree line, false, session⟩ := by
  cases htrim : Text.trim line with
  | nil =>
      unfold answer kindOf plainEntries
      rw [htrim]
      rfl
  | cons c rest =>
      have hc : c ≠ ':' := by
        rintro rfl
        exact hcolon (by rw [htrim, List.head?_cons])
      rw [answer, kindOf_of_ne_colon htrim hc, plainEntries, htrim,
        if_neg (List.cons_ne_nil c rest)]

theorem session_answerCommand
    (session : Session) (command : Text) :
    (session.answerCommand command).session =
      if command = ":tree".toList then ⟨!session.showTree⟩ else session := by
  by_cases htree : command = ":tree".toList
  · subst htree
    rfl
  · rw [answerCommand, if_neg htree, if_neg htree]
    split
    · rfl
    · split <;> rfl

theorem exit_answerCommand
    (session : Session) (command : Text) :
    (session.answerCommand command).exit = exitCommands.contains command := by
  by_cases hexit : exitCommands.contains command = true
  · have hhelp : command ≠ ":help".toList := by
      rintro rfl
      cases hexit
    rw [answerCommand, if_neg hhelp, if_pos hexit, hexit]
  · rw [answerCommand, if_neg hexit, Bool.eq_false_iff.mpr hexit]
    split
    · rfl
    · split <;> rfl

end Answers

/-- Only a switch changes a session. -/
theorem session_answer
    (session : Session) (line : Text) :
    (session.answer line).session =
      if isSwitch line then ⟨!session.showTree⟩ else session := by
  by_cases hcolon : (Text.trim line).head? = some ':'
  · rw [answer_of_command hcolon, session_answerCommand, isSwitch]
    simp only [decide_eq_true_eq]
  · have hswitch : isSwitch line = false := by
      rw [isSwitch, decide_eq_false_iff_not]
      intro htrim
      exact hcolon (by rw [htrim]; rfl)
    rw [answer_of_no_command hcolon, hswitch]
    rfl

/-- Only the commands that end a session do so. -/
theorem exit_answer
    (session : Session) (line : Text) :
    (session.answer line).exit = isExit line := by
  by_cases hcolon : (Text.trim line).head? = some ':'
  · rw [answer_of_command hcolon, exit_answerCommand]
    rfl
  · have hcommands : ∀ command ∈ [":q".toList, ":quit".toList, ":exit".toList],
        command.head? = some ':' := by
      decide
    have hexit : isExit line = false := by
      rw [isExit, List.contains_eq_mem, decide_eq_false_iff_not]
      intro hmem
      exact hcolon (hcommands _ hmem)
    rw [answer_of_no_command hcolon, hexit]

/-- Trees are shown after an odd number of switches if they were not before. -/
theorem showTree_after
    (session : Session) (lines : List Text) :
    (session.after lines).showTree = true ↔
      (Odd (lines.countP isSwitch) ↔ session.showTree = false) := by
  induction lines generalizing session with
  | nil =>
      simp
  | cons line rest ih =>
      rw [after_cons, ih, session_answer, List.countP_cons]
      cases isSwitch line with
      | true =>
          rw [if_pos rfl, if_pos rfl, Nat.odd_add_one]
          cases session.showTree <;> simp
      | false =>
          rw [if_neg Bool.false_ne_true, if_neg Bool.false_ne_true, Nat.add_zero]

theorem showTree_after_fresh
    (lines : List Text) :
    (fresh.after lines).showTree = true ↔ Odd (lines.countP isSwitch) := by
  rw [showTree_after]
  simp [fresh]

/-- The lines before an answer matter through the parity of switches only. -/
theorem after_fresh_eq
    {first second : List Text}
    (hparity : Odd (first.countP isSwitch) ↔ Odd (second.countP isSwitch)) :
    fresh.after first = fresh.after second := by
  rw [← showTree_after_fresh, ← showTree_after_fresh, ← Bool.eq_iff_iff] at hparity
  exact congrArg Session.mk hparity

/-- The answers to lines are given by the sessions after the lines before. -/
theorem getElem?_answers
    (session : Session) (lines : List Text) (place : Nat) :
    (session.answers lines)[place]? =
      lines[place]?.map (session.after (lines.take place)).answer := by
  induction lines generalizing session place with
  | nil =>
      rfl
  | cons line rest ih =>
      cases place with
      | zero =>
          rfl
      | succ place =>
          rw [answers, List.getElem?_cons_succ, List.getElem?_cons_succ, List.take_succ_cons,
            after_cons, ih]

/-- The same entries, or the same but for the outline of the tree of the line,
directly after the entry with its sequence. -/
def OutlineApart (line : Text) (hidden shown : List Text) : Prop :=
  shown = hidden ∨
    ∃ report tree values,
      LineReport.ofLine (Text.trim line) = .ok report ∧
      report.tree = .ok tree ∧
      hidden = ("postfix: ".toList ++ report.rpnOutcome.render id) :: values ∧
      shown = ("postfix: ".toList ++ report.rpnOutcome.render id) :: tree.outline 2 :: values

/-- Showing trees adds at most an outline to the entries for a line. -/
theorem outlineApart_plainEntries
    (line : Text) :
    OutlineApart line (plainEntries false line) (plainEntries true line) := by
  unfold plainEntries
  by_cases hblank : Text.trim line = []
  · rw [if_pos hblank, if_pos hblank]
    exact Or.inl rfl
  · rw [if_neg hblank, if_neg hblank]
    unfold expressionEntries
    cases hline : LineReport.ofLine (Text.trim line) with
    | error error =>
        exact Or.inl rfl
    | ok report =>
        cases htree : report.tree with
        | error error =>
            refine Or.inl ?_
            simp [outlineEntry, htree]
        | ok tree =>
            refine Or.inr ⟨report, tree, valueEntries report, hline, htree, rfl, ?_⟩
            simp [outlineEntry, htree]

/-- The lines up to the first one that ends the session, and that one. -/
def heard (lines : List Text) : List Text :=
  (lines.takeWhile fun line => !isExit line) ++
    (lines.dropWhile fun line => !isExit line).head?.toList

theorem heard_cons_of_exit
    {line : Text}
    (hexit : isExit line = true)
    (rest : List Text) :
    heard (line :: rest) = [line] := by
  simp [heard, hexit]

theorem heard_cons_of_stay
    {line : Text}
    (hstay : isExit line = false)
    (rest : List Text) :
    heard (line :: rest) = line :: heard rest := by
  simp [heard, hstay]

end Session
end InfixCalc
