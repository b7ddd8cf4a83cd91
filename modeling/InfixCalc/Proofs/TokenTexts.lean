import InfixCalc.Proofs.Sequencing
import InfixCalc.Proofs.WordLanguage
import InfixCalc.Proofs.Words
import InfixCalc.Report.Line
import Mathlib.Data.Set.Operations

/-!
# Reading the texts of tokens

The text of a token is a word that spells the token, except for the bottom
mark, whose text spells nothing.  Written with single spaces the tokens of a
sequence are the words of its text, so that a sequence without the bottom mark
is read back; in any other, the first bottom mark is the first word that is no
token.

* `Token.spells_render` : a token is spelled by its text.
* `Token.words_renderAll` : the words of a sequence are the texts of its tokens.
* `Token.mapM_ofWord_render` : the tokens are read back.
* `Rpn.ofLine_render` : what is read from the text of a sequence.
-/

namespace InfixCalc

namespace Token

theorem isBlank_of_isDigit
    {c : Char}
    (hdigit : c.isDigit = true) :
    Text.isBlank c = false := by
  rw [Char.isDigit, Bool.and_eq_true, decide_eq_true_eq, decide_eq_true_eq] at hdigit
  have hlow : 48 ≤ c.toNat := hdigit.1
  have hhigh : c.toNat ≤ 57 := hdigit.2
  simp [Text.isBlank, Text.blankRanges]
  omega

/-- The text of an operand: digits, or a minus and digits. -/
theorem ofValue_eq_cons
    (value : Value) :
    ∃ c digits,
      Text.ofValue value = c :: digits ∧
      (c.isDigit = true ∨ c = '-' ∧ digits ≠ []) ∧
      ∀ d ∈ digits, d.isDigit = true := by
  have hnumeral : Text.Numeral (Text.ofValue value) value.toInt := Text.numeral_ofInt value.toInt
  cases htext : Text.ofValue value with
  | nil =>
      rw [htext] at hnumeral
      exact absurd (Or.inr ⟨_, hnumeral⟩) Lexeme.not_matches_nil
  | cons c digits =>
      rw [htext] at hnumeral
      exact ⟨c, digits, rfl, Lexeme.numeral_cons_iff.mp ⟨_, hnumeral⟩⟩

/-- A token is spelled by its text, if it can be spelled at all. -/
theorem spells_render
    {token : Token}
    (hbottom : token ≠ .bottom) :
    Spells token.render token := by
  cases token with
  | operator op =>
      exact .symbol (.operator op)
  | opening =>
      exact .symbol .opening
  | closing =>
      exact .symbol .closing
  | bottom =>
      exact absurd rfl hbottom
  | number value =>
      have hspells := Spells.number (Text.numeral_ofInt value.toInt) (Value.inRange_toInt value)
      rwa [Int64.ofInt_toInt] at hspells

/-- A token is read back, if it can be read at all. -/
theorem ofWord_render
    {token : Token}
    (hbottom : token ≠ .bottom) :
    ofWord token.render = .ok token :=
  ofWord_eq_ok_iff.mpr (spells_render hbottom)

/-- The bottom mark is written and cannot be read. -/
theorem ofWord_render_bottom :
    ofWord (render .bottom) = .error (.malformedNumber ['|']) :=
  ofWord_eq_error_iff.mpr ⟨rfl, Lexeme.tokenOf?_eq_none_iff.mp (by decide)⟩

theorem isWord_render
    (token : Token) :
    Text.IsWord token.render := by
  cases token with
  | operator op =>
      cases op <;> exact Text.isWord_singleton rfl
  | opening =>
      exact Text.isWord_singleton rfl
  | closing =>
      exact Text.isWord_singleton rfl
  | bottom =>
      exact Text.isWord_singleton rfl
  | number value =>
      obtain ⟨c, digits, htext, hc, hdigits⟩ := ofValue_eq_cons value
      rw [render, htext]
      refine ⟨List.cons_ne_nil _ _, ?_⟩
      rw [List.forall_mem_cons]
      refine ⟨?_, fun d hd => isBlank_of_isDigit (hdigits d hd)⟩
      rcases hc with hc | ⟨rfl, -⟩
      · exact isBlank_of_isDigit hc
      · decide

theorem words_renderAll
    (tokens : List Token) :
    Text.words (renderAll tokens) = tokens.map render := by
  refine Text.words_unwords ?_
  intro word hword
  obtain ⟨token, -, rfl⟩ := List.mem_map.mp hword
  exact isWord_render token

/-- Tokens without the bottom mark are read back. -/
theorem mapM_ofWord_render
    {tokens : List Token}
    (hbottom : .bottom ∉ tokens) :
    (tokens.map render).mapM ofWord = .ok tokens := by
  induction tokens with
  | nil =>
      rfl
  | cons token rest ih =>
      rw [List.mem_cons, not_or] at hbottom
      rw [List.map_cons, List.mapM_cons, ofWord_render (Ne.symm hbottom.1), ok_bind,
        ih hbottom.2, ok_bind]
      rfl

/-- The first bottom mark is the first word that is no token. -/
theorem mapM_ofWord_render_of_bottom
    {tokens : List Token}
    (hbottom : .bottom ∈ tokens) :
    (tokens.map render).mapM ofWord = .error (.malformedNumber ['|']) := by
  induction tokens with
  | nil =>
      cases hbottom
  | cons token rest ih =>
      rw [List.map_cons, List.mapM_cons]
      by_cases htoken : token = .bottom
      · rw [htoken, ofWord_render_bottom, error_bind]
      · have hrest : .bottom ∈ rest :=
          (List.mem_cons.mp hbottom).resolve_left (Ne.symm htoken)
        rw [ofWord_render htoken, ok_bind, ih hrest, error_bind]

/-- A line has the tokens whose texts are its words. -/
theorem ofLine_of_words_eq
    {line : Text} {tokens : List Token}
    (hwords : Text.words line = tokens.map render)
    (hbottom : .bottom ∉ tokens) :
    ofLine line = .ok tokens := by
  rw [ofLine, hwords, mapM_ofWord_render hbottom]

theorem ofLine_renderAll_of_notMem
    {tokens : List Token}
    (hbottom : .bottom ∉ tokens) :
    ofLine (renderAll tokens) = .ok tokens :=
  ofLine_of_words_eq (words_renderAll tokens) hbottom

theorem bottom_notMem_of_mapM
    {words : List Text} {tokens : List Token}
    (htokens : words.mapM ofWord = .ok tokens) :
    .bottom ∉ tokens := by
  induction words generalizing tokens with
  | nil =>
      cases htokens
      exact List.not_mem_nil
  | cons word words ih =>
      rw [List.mapM_cons, bind_eq_ok] at htokens
      obtain ⟨token, hword, htokens⟩ := htokens
      obtain ⟨later, hlater, htokens⟩ := bind_eq_ok.mp htokens
      cases htokens
      rw [List.mem_cons, not_or]
      exact ⟨(ne_bottom_of_ofWord hword).symm, ih hlater⟩

/-- The tokens of a line are the tokens of their text. -/
theorem ofLine_renderAll
    {line : Text} {tokens : List Token}
    (htokens : ofLine line = .ok tokens) :
    ofLine (renderAll tokens) = .ok tokens :=
  ofLine_renderAll_of_notMem (bottom_notMem_of_mapM htokens)

end Token

namespace Rpn

/-- A sequence without the bottom mark is read back from its text, and so are
the tokens of a line from its expression; the bottom mark cannot be read.
Sequences without it have different texts. -/
theorem ofLine_render :
    (∀ rpn : Rpn, .bottom ∉ rpn → Token.ofLine rpn.render = .ok rpn) ∧
    (∀ report : LineReport, .bottom ∉ report.tokens →
      Token.ofLine report.expression = .ok report.tokens) ∧
    (∀ rpn : Rpn, .bottom ∈ rpn →
      Token.ofLine rpn.render = .error (.malformedNumber ['|'])) ∧
    Set.InjOn render {rpn | .bottom ∉ rpn} := by
  have hread : ∀ rpn : Rpn, .bottom ∉ rpn → Token.ofLine rpn.render = .ok rpn :=
    fun _ => Token.ofLine_renderAll_of_notMem
  refine ⟨hread, fun _ => Token.ofLine_renderAll_of_notMem, ?_, ?_⟩
  · intro rpn hbottom
    rw [Token.ofLine, render, Token.words_renderAll, Token.mapM_ofWord_render_of_bottom hbottom]
  · intro first hfirst second hsecond htext
    have hsame : Except.ok first = (Except.ok second : Except LexError Rpn) := by
      rw [← hread first hfirst, htext, hread second hsecond]
    exact Except.ok.inj hsame

/-- The least operand, a minus, a negative operand and a parenthesis that
nothing closes are read back; of two bottom marks the first is the error. -/
theorem ofLine_render_least :
    (∃ rpn : Rpn,
      rpn = [.number Int64.minValue, .operator .minus, .number (-1), .opening] ∧
      rpn.render = "-9223372036854775808 - -1 (".toList ∧
      .bottom ∉ rpn ∧
      Token.ofLine rpn.render = .ok rpn) ∧
    Token.ofLine (render [.number 7, .bottom, .closing, .bottom]) =
      .error (.malformedNumber ['|']) :=
  ⟨⟨_, rfl, by decide, by decide, ofLine_render.1 _ (by decide)⟩,
    ofLine_render.2.2.1 _ (by decide)⟩

end Rpn
end InfixCalc
