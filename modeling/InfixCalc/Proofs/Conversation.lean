import InfixCalc.Proofs.Encoding
import InfixCalc.Proofs.Invocations
import InfixCalc.Proofs.Rereading
import InfixCalc.Proofs.Sessions

/-!
# Conversations

A run that answers the lines of the standard input writes the answers to its
lines, up to the first one that ends the session, and what follows that line
does not matter.  A line is handed to the session as it was edited; a line
without backspaces is handed over as it is.

* `Program.handedOver` : the lines that the session gets.
* `Program.Delivered` : lines that it gets as far as it needs them.
* `Program.converseFrom_of_lines` : a conversation from any session.
* `Program.conversations` : sessions and conversations as a whole.
-/

namespace InfixCalc
namespace Program

open Session

/-- The lines as they were edited, up to the first one that has no edited
form. -/
def handedOver (lines : List Text) : List Text :=
  ((lines.map Text.applyBackspaces?).takeWhile Option.isSome).filterMap id

theorem handedOver_cons_of_some
    {line edited : Text}
    (hedited : line.applyBackspaces? = some edited)
    (rest : List Text) :
    handedOver (line :: rest) = edited :: handedOver rest := by
  simp [handedOver, hedited]

theorem handedOver_cons_of_none
    {line : Text}
    (hbroken : line.applyBackspaces? = none)
    (rest : List Text) :
    handedOver (line :: rest) = [] := by
  simp [handedOver, hbroken]

/-- Lines are delivered: all of them, or as many as it takes to end the session,
have an edited form.  The session hears these. -/
inductive Delivered : List Text → List Text → Prop
  | nil : Delivered [] []
  | exit {line edited : Text} (rest : List Text) :
      line.applyBackspaces? = some edited →
      isExit edited = true →
      Delivered (line :: rest) [edited]
  | stay {line edited : Text} {rest later : List Text} :
      line.applyBackspaces? = some edited →
      isExit edited = false →
      Delivered rest later →
      Delivered (line :: rest) (edited :: later)

theorem delivered_of_forall_notMem
    {lines : List Text}
    (hlines : ∀ line ∈ lines, '\x08' ∉ line) :
    Delivered lines (heard lines) := by
  induction lines with
  | nil =>
      exact .nil
  | cons line rest ih =>
      obtain ⟨hline, hrest⟩ := List.forall_mem_cons.mp hlines
      have hedited := Text.applyBackspaces?_of_not_mem hline
      cases hexit : isExit line with
      | true =>
          rw [heard_cons_of_exit hexit]
          exact .exit rest hedited hexit
      | false =>
          rw [heard_cons_of_stay hexit]
          exact .stay hedited hexit (ih hrest)

theorem heard_of_delivered
    {lines edited : List Text}
    (hdelivered : Delivered lines edited) :
    heard (handedOver lines) = edited := by
  induction hdelivered with
  | nil =>
      rfl
  | exit rest hedited hexit =>
      rw [handedOver_cons_of_some hedited, heard_cons_of_exit hexit]
  | stay hedited hstay _ ih =>
      rw [handedOver_cons_of_some hedited, heard_cons_of_stay hstay, ih]

section Steps

variable {bytes : Bytes} {line edited : Text}

theorem exists_of_lineText
    (hline : lineText bytes = .ok line) :
    ∃ text, decodeText bytes = .ok text ∧ dropEnding text = line := by
  rw [lineText] at hline
  cases hdecode : decodeText bytes with
  | error error =>
      rw [hdecode] at hline
      cases hline
  | ok text =>
      rw [hdecode] at hline
      cases hline
      exact ⟨text, rfl, rfl⟩

theorem converseFrom_cons_of_none
    (hline : lineText bytes = .ok line)
    (hbroken : line.applyBackspaces? = none)
    (session : Session) (rest : List Bytes) :
    converseFrom session (bytes :: rest) = ⟨brokenLineCode, [], []⟩ := by
  obtain ⟨text, hdecode, rfl⟩ := exists_of_lineText hline
  rw [converseFrom, hdecode]
  simp only [hbroken]

theorem converseFrom_cons_of_exit
    (hline : lineText bytes = .ok line)
    (hedited : line.applyBackspaces? = some edited)
    (hexit : isExit edited = true)
    (session : Session) (rest : List Bytes) :
    converseFrom session (bytes :: rest) =
      ⟨0, renderEntries (session.answer edited).entries, []⟩ := by
  obtain ⟨text, hdecode, rfl⟩ := exists_of_lineText hline
  rw [converseFrom, hdecode]
  simp only [hedited, exit_answer, hexit, if_pos]

theorem converseFrom_cons_of_stay
    (hline : lineText bytes = .ok line)
    (hedited : line.applyBackspaces? = some edited)
    (hstay : isExit edited = false)
    (session : Session) (rest : List Bytes) :
    converseFrom session (bytes :: rest) =
      ⟨(converseFrom (session.answer edited).session rest).exit,
        renderEntries (session.answer edited).entries ++
          (converseFrom (session.answer edited).session rest).output,
        (converseFrom (session.answer edited).session rest).errors⟩ := by
  obtain ⟨text, hdecode, rfl⟩ := exists_of_lineText hline
  rw [converseFrom, hdecode]
  simp only [hedited, exit_answer, hstay]
  rfl

end Steps

/-- What answers are written as: their entries, a line each. -/
def transcript (answers : List Answer) : Text :=
  (answers.flatMap Answer.entries).flatMap fun entry => entry ++ ['\n']

/-- How a conversation about lines ends: with success if the session ends it or
gets all the lines. -/
def endCode (lines : List Text) : Nat :=
  if (handedOver lines).any isExit ∨ (handedOver lines).length = lines.length then
    0
  else
    brokenLineCode

@[simp] theorem transcript_nil :
    transcript [] = [] := by
  rfl

@[simp] theorem transcript_cons
    (answer : Answer) (later : List Answer) :
    transcript (answer :: later) = renderEntries answer.entries ++ transcript later := by
  rw [transcript, List.flatMap_cons, List.flatMap_append]
  rfl

section EndCodes

variable {line edited : Text}

theorem endCode_cons_of_none
    (hbroken : line.applyBackspaces? = none)
    (lines : List Text) :
    endCode (line :: lines) = brokenLineCode := by
  simp [endCode, handedOver_cons_of_none hbroken]

theorem endCode_cons_of_exit
    (hedited : line.applyBackspaces? = some edited)
    (hexit : isExit edited = true)
    (lines : List Text) :
    endCode (line :: lines) = 0 := by
  simp [endCode, handedOver_cons_of_some hedited, hexit]

theorem endCode_cons_of_stay
    (hedited : line.applyBackspaces? = some edited)
    (hstay : isExit edited = false)
    (lines : List Text) :
    endCode (line :: lines) = endCode lines := by
  simp [endCode, handedOver_cons_of_some hedited, hstay]

theorem endCode_of_delivered
    {lines edited : List Text}
    (hdelivered : Delivered lines edited) :
    endCode lines = 0 := by
  induction hdelivered with
  | nil =>
      rfl
  | exit rest hedited hexit =>
      exact endCode_cons_of_exit hedited hexit rest
  | stay hedited hstay _ ih =>
      exact (endCode_cons_of_stay hedited hstay _).trans ih

end EndCodes

/-- A conversation is the answers to the lines that the session gets, up to the
first one that ends it. -/
theorem converseFrom_of_lines
    {lines : List Text} {input : List Bytes}
    (hinput : input.map lineText = lines.map .ok)
    (session : Session) :
    converseFrom session input =
      ⟨endCode lines, transcript (session.answers (heard (handedOver lines))), []⟩ := by
  induction lines generalizing input session with
  | nil =>
      rw [List.map_nil, List.map_eq_nil_iff] at hinput
      rw [hinput]
      rfl
  | cons line lines ih =>
      -- The bytes are read one line at a time, so they lose their first line
      -- together with the texts, and the session is the one after it.
      obtain ⟨bytes, rest, rfl, hline, hrest⟩ := List.map_eq_cons_iff.mp hinput
      cases hedited : line.applyBackspaces? with
      | none =>
          rw [converseFrom_cons_of_none hline hedited, endCode_cons_of_none hedited,
            handedOver_cons_of_none hedited]
          rfl
      | some edited =>
          rw [handedOver_cons_of_some hedited]
          cases hexit : isExit edited with
          | true =>
              rw [converseFrom_cons_of_exit hline hedited hexit,
                endCode_cons_of_exit hedited hexit, heard_cons_of_exit hexit, answers, answers,
                transcript_cons, transcript_nil, List.append_nil]
          | false =>
              rw [converseFrom_cons_of_stay hline hedited hexit, ih hrest,
                endCode_cons_of_stay hedited hexit, heard_cons_of_stay hexit, answers,
                transcript_cons]

theorem delivered_lines
    {source : Text}
    (hsource : '\x08' ∉ source) :
    Delivered (Text.lines source) (heard (Text.lines source)) := by
  refine delivered_of_forall_notMem fun line hline hmem => ?_
  exact hsource (Text.mem_of_cut (Text.cut_lines source) hline hmem)

open CommandLine

theorem run_of_converse
    {args : List Text} {world : World} {source : Text}
    (hasks : AsksFor args .converse)
    (hdecode : decodeText world.input = .ok source) :
    run world args =
      ⟨endCode (Text.lines source),
        transcript (fresh.answers (heard (handedOver (Text.lines source)))), []⟩ := by
  rw [run_of_asksFor hasks]
  change converseFrom .fresh (byteLines world.input) = _
  rw [decodeText_eq_ok.mp hdecode]
  exact converseFrom_of_lines (lineText_byteLines source) fresh

/-- After any lines, trees are shown if the number of switches among them is
odd.  An answer is given by the session after the lines before; it ends the
session for the three commands that do, it depends on the lines before through
the parity of switches only, and for a line that is no command showing trees
adds at most an outline.  A run that answers the standard input writes the
answers to the lines that it gets, up to the first one that ends the session.
It ends with success if every line up to that one is delivered, and lines
without backspaces are delivered as they are. -/
theorem conversations :
    (∀ lines, (fresh.after lines).showTree = true ↔ Odd (lines.countP isSwitch)) ∧
    (∀ lines place,
      (fresh.answers lines)[place]? =
        lines[place]?.map (fresh.after (lines.take place)).answer) ∧
    (∀ earlier line,
      ((fresh.after earlier).answer line).exit = true ↔
        Text.trim line ∈ [":q".toList, ":quit".toList, ":exit".toList]) ∧
    (∀ first second line,
      (Odd (first.countP isSwitch) ↔ Odd (second.countP isSwitch)) →
      (fresh.after first).answer line = (fresh.after second).answer line) ∧
    (∀ hidden shown line,
      ¬Odd (hidden.countP isSwitch) →
      Odd (shown.countP isSwitch) →
      (Text.trim line).head? ≠ some ':' →
      OutlineApart line ((fresh.after hidden).answer line).entries
        ((fresh.after shown).answer line).entries) ∧
    ∀ world args source,
      AsksFor args .converse →
      decodeText world.input = .ok source →
      run world args =
        ⟨endCode (Text.lines source),
          transcript (fresh.answers (heard (handedOver (Text.lines source)))), []⟩ ∧
      (∀ edited,
        Delivered (Text.lines source) edited →
        run world args = ⟨0, transcript (fresh.answers edited), []⟩) ∧
      ('\x08' ∉ source →
        run world args =
          ⟨0, transcript (fresh.answers (heard (Text.lines source))), []⟩) := by
  refine ⟨showTree_after_fresh, getElem?_answers fresh, ?_, ?_, ?_, ?_⟩
  · intro earlier line
    rw [exit_answer, isExit, List.contains_eq_mem, decide_eq_true_eq]
  · intro first second line hparity
    rw [after_fresh_eq hparity]
  · intro hidden shown line hhidden hshown hcolon
    rw [← showTree_after_fresh, Bool.not_eq_true] at hhidden
    rw [← showTree_after_fresh] at hshown
    rw [answer_of_no_command hcolon, answer_of_no_command hcolon, hhidden, hshown]
    exact outlineApart_plainEntries line
  · intro world args source hasks hdecode
    have hrun := run_of_converse hasks hdecode
    have hdelivers : ∀ edited, Delivered (Text.lines source) edited →
        run world args = ⟨0, transcript (fresh.answers edited), []⟩ := by
      intro edited hdelivered
      rw [hrun, endCode_of_delivered hdelivered, heard_of_delivered hdelivered]
    exact ⟨hrun, hdelivers, fun hsource => hdelivers _ (delivered_lines hsource)⟩

/-- The line after `:q` has no answer; and a letter that is taken back is no part of the
command `:tree`. -/
theorem conversations_quit :
    decodeText [58, 116, 114, 101, 101, 10, 49, 10, 58, 113, 10, 50] =
        .ok ":tree\n1\n:q\n2".toList ∧
      run ⟨[58, 116, 114, 101, 101, 10, 49, 10, 58, 113, 10, 50], fun _ => .error .missing⟩
          ["shunt".toList, "repl".toList] =
        ⟨0, "tree printing on\npostfix: 1\n1\n1\n".toList, []⟩ ∧
      run ⟨[58, 116, 114, 101, 101, 120, 8, 10, 58, 113, 10, 50], fun _ => .error .missing⟩
          ["shunt".toList, "repl".toList] =
        ⟨0, "tree printing on\n".toList, []⟩ := by
  have hasks : AsksFor ["shunt".toList, "repl".toList] .converse :=
    ⟨⟨0, some .converse⟩, by decide, rfl⟩
  have hdecode : decodeText [58, 116, 114, 101, 101, 10, 49, 10, 58, 113, 10, 50] =
      .ok ":tree\n1\n:q\n2".toList := by
    decide
  have hheard : heard (Text.lines ":tree\n1\n:q\n2".toList) =
      [":tree".toList, "1".toList, ":q".toList] := by
    decide
  have htokens : Token.ofLine "1".toList = .ok [.number 1] :=
    Token.ofLine_of_words_eq (by decide) (by decide)
  have hline := LineReport.ofLine_eq_ok.mpr ⟨_, htokens, rfl⟩
  have hentries : expressionEntries true "1".toList =
      ["postfix: 1".toList, "1".toList, "1".toList] := by
    rw [expressionEntries, hline]
    decide
  have hanswer : (⟨true⟩ : Session).answer "1".toList =
      ⟨["postfix: 1".toList, "1".toList, "1".toList], false, ⟨true⟩⟩ := by
    have hkind : kindOf "1".toList = .expression "1".toList := by
      decide
    rw [answer, hkind, ← hentries]
  have hswitch : fresh.answer ":tree".toList =
      ⟨["tree printing on".toList], false, ⟨true⟩⟩ := by
    decide
  have hrun := conversations.2.2.2.2.2
    ⟨[58, 116, 114, 101, 101, 10, 49, 10, 58, 113, 10, 50], fun _ => .error .missing⟩
    _ _ hasks hdecode
  have hedited := conversations.2.2.2.2.2
    ⟨[58, 116, 114, 101, 101, 120, 8, 10, 58, 113, 10, 50], fun _ => .error .missing⟩
    _ ":treex\x08\n:q\n2".toList hasks (by decide)
  have hdelivered : Delivered (Text.lines ":treex\x08\n:q\n2".toList)
      [":tree".toList, ":q".toList] :=
    .stay (by decide) (by decide) (.exit _ (by decide) (by decide))
  refine ⟨hdecode, ?_, ?_⟩
  · rw [hrun.2.2 (by decide), hheard, answers, hswitch, answers, hanswer]
    decide
  · rw [hedited.2.1 _ hdelivered]
    decide

end Program
end InfixCalc
