import InfixCalc.Lexeme
import InfixCalc.Proofs.Numerals
import Mathlib.Data.List.TakeWhile

/-!
# The lexical grammar

A piece of a text has a pattern if it is one of the eight symbols or a numeral.
A symbol spells its token and a numeral spells the operand with its value; a
numeral out of range has a pattern and spells nothing.

What follows the first character of a lexeme is decided by this character
alone.  Taking all digits behind a digit or a minus loses no piece with a
pattern, because a numeral is such a character with digits behind it.

* `Lexeme.tokenOf?_eq_some_iff` : the token of a piece is the one it spells.
* `Lexeme.matches_cons_iff` : the two forms of a piece with a pattern.
* `Lexeme.matches_front` : a lexeme has a pattern if anything there has one.
* `Lexeme.prefix_of_matches` : no piece with a pattern is longer than the lexeme.
-/

namespace InfixCalc

/-- A symbol and the token it stands for. -/
inductive Symbol : Text → Token → Prop where
  | operator (op : Operator) : Symbol [op.symbol] (.operator op)
  | opening : Symbol ['('] .opening
  | closing : Symbol [')'] .closing

/-- A piece and the token it is written for. -/
inductive Spells : Text → Token → Prop where
  | symbol {piece : Text} {token : Token}
      (reads : Symbol piece token) :
      Spells piece token
  | number {piece : Text} {value : Int}
      (reads : Text.Numeral piece value)
      (range : Value.InRange value) :
      Spells piece (.number (Int64.ofInt value))

namespace Lexeme

/-- A piece has a pattern if it is a symbol or a numeral, in range or not. -/
def Matches (piece : Text) : Prop :=
  (∃ token, Symbol piece token) ∨ ∃ value, Text.Numeral piece value

theorem symbolToken?_eq_some_iff
    {c : Char} {token : Token} :
    symbolToken? c = some token ↔ Symbol [c] token := by
  constructor
  · intro hsymbol
    unfold symbolToken? at hsymbol
    split at hsymbol <;> cases hsymbol
    · exact .operator .plus
    · exact .operator .minus
    · exact .operator .times
    · exact .operator .divide
    · exact .operator .modulo
    · exact .operator .power
    · exact .opening
    · exact .closing
  · intro hsymbol
    generalize hpiece : [c] = piece at hsymbol
    cases hsymbol with
    | operator op =>
        cases hpiece
        cases op <;> rfl
    | opening =>
        cases hpiece
        rfl
    | closing =>
        cases hpiece
        rfl

theorem symbolToken?_of_isDigit
    {c : Char}
    (hdigit : c.isDigit = true) :
    symbolToken? c = none := by
  unfold symbolToken?
  split
  case h_9 =>
      rfl
  all_goals exact absurd hdigit (by decide)

/-- A symbol is one character. -/
theorem eq_nil_of_symbol
    {c : Char} {rest : Text} {token : Token}
    (hsymbol : Symbol (c :: rest) token) :
    rest = [] := by
  cases hsymbol <;> rfl

/-- A numeral begins with a digit or a minus; digits follow. -/
theorem numeral_cons_iff
    {c : Char} {rest : Text} :
    (∃ value, Text.Numeral (c :: rest) value) ↔
      (c.isDigit = true ∨ c = '-' ∧ rest ≠ []) ∧ ∀ d ∈ rest, d.isDigit = true := by
  constructor
  · rintro ⟨value, ⟨hne, hdigits⟩ | ⟨hne, hdigits⟩⟩
    · rw [List.forall_mem_cons] at hdigits
      exact ⟨Or.inl hdigits.1, hdigits.2⟩
    · exact ⟨Or.inr ⟨rfl, hne⟩, hdigits⟩
  · rintro ⟨hc | ⟨rfl, hne⟩, hdigits⟩
    · exact ⟨_, .unsigned (List.cons_ne_nil c rest) (List.forall_mem_cons.mpr ⟨hc, hdigits⟩)⟩
    · exact ⟨_, .negative hne hdigits⟩

theorem not_matches_nil :
    ¬Matches [] := by
  rintro (⟨token, hsymbol⟩ | ⟨value, hnumeral⟩)
  · cases hsymbol
  · cases hnumeral with
    | unsigned hne hdigits =>
        exact hne rfl

/-- The forms of a piece with a pattern: a symbol alone, or a digit or a minus
with digits behind it. -/
theorem matches_cons_iff
    {c : Char} {rest : Text} :
    Matches (c :: rest) ↔
      ((symbolToken? c).isSome = true ∧ rest = []) ∨
        (c.isDigit = true ∨ c = '-' ∧ rest ≠ []) ∧ ∀ d ∈ rest, d.isDigit = true := by
  rw [Matches, numeral_cons_iff, Option.isSome_iff_exists]
  refine or_congr_left ⟨?_, ?_⟩
  · rintro ⟨token, hsymbol⟩
    cases eq_nil_of_symbol hsymbol
    exact ⟨⟨token, symbolToken?_eq_some_iff.mpr hsymbol⟩, rfl⟩
  · rintro ⟨⟨token, hsymbol⟩, rfl⟩
    exact ⟨token, symbolToken?_eq_some_iff.mp hsymbol⟩

/-- No numeral is a symbol. -/
theorem symbolToken?_of_numeral
    {c : Char} {value : Int}
    (hnumeral : Text.Numeral [c] value) :
    symbolToken? c = none := by
  obtain ⟨hc | ⟨-, hne⟩, -⟩ := numeral_cons_iff.mp ⟨value, hnumeral⟩
  · exact symbolToken?_of_isDigit hc
  · exact absurd rfl hne

theorem tokenOf?_eq_numeral
    {piece : Text}
    (hsymbol : ∀ c, piece = [c] → symbolToken? c = none) :
    tokenOf? piece = tokenOf?.numeral piece := by
  unfold tokenOf?
  split
  · next c =>
      rw [hsymbol c rfl]
  · rfl

theorem tokenOf?_of_symbol
    {piece : Text} {token : Token}
    (hsymbol : Symbol piece token) :
    tokenOf? piece = some token := by
  cases hsymbol with
  | operator op =>
      cases op <;> rfl
  | opening =>
      rfl
  | closing =>
      rfl

theorem tokenOf?_of_numeral
    {piece : Text} {value : Int}
    (hnumeral : Text.Numeral piece value) :
    tokenOf? piece = (Value.ofInt? value).map Token.number := by
  rw [tokenOf?_eq_numeral, tokenOf?.numeral, Text.numeralValue?_eq_some_iff.mpr hnumeral,
    Option.bind_some]
  rintro c rfl
  exact symbolToken?_of_numeral hnumeral

theorem tokenOf?_of_not_matches
    {piece : Text}
    (hpiece : ¬Matches piece) :
    tokenOf? piece = none := by
  have hnumeral : Text.numeralValue? piece = none := by
    rw [Option.eq_none_iff_forall_ne_some]
    intro value hvalue
    exact hpiece (Or.inr ⟨value, Text.numeralValue?_eq_some_iff.mp hvalue⟩)
  rw [tokenOf?_eq_numeral, tokenOf?.numeral, hnumeral, Option.bind_none]
  rintro c rfl
  rw [Option.eq_none_iff_forall_ne_some]
  intro token hsymbol
  exact hpiece (Or.inl ⟨token, symbolToken?_eq_some_iff.mp hsymbol⟩)

/-- The token of a piece is the one it spells. -/
theorem tokenOf?_eq_some_iff
    {piece : Text} {token : Token} :
    tokenOf? piece = some token ↔ Spells piece token := by
  constructor
  · intro htoken
    by_cases hpiece : Matches piece
    · rcases hpiece with ⟨other, hsymbol⟩ | ⟨value, hnumeral⟩
      · rw [tokenOf?_of_symbol hsymbol] at htoken
        cases htoken
        exact .symbol hsymbol
      · rw [tokenOf?_of_numeral hnumeral] at htoken
        by_cases hrange : Value.InRange value
        · rw [Value.ofInt?_of_inRange hrange] at htoken
          cases htoken
          exact .number hnumeral hrange
        · rw [Value.ofInt?_of_not_inRange hrange] at htoken
          cases htoken
    · rw [tokenOf?_of_not_matches hpiece] at htoken
      cases htoken
  · rintro (hsymbol | ⟨hnumeral, hrange⟩)
    · exact tokenOf?_of_symbol hsymbol
    · rw [tokenOf?_of_numeral hnumeral, Value.ofInt?_of_inRange hrange, Option.map_some]

theorem tokenOf?_eq_none_iff
    {piece : Text} :
    tokenOf? piece = none ↔ ∀ token, ¬Spells piece token := by
  rw [Option.eq_none_iff_forall_ne_some]
  exact forall_congr' fun token => not_congr tokenOf?_eq_some_iff

theorem tailOf_of_digits
    {c : Char} {digits : Text}
    (hc : c.isDigit = true ∨ c = '-')
    (hdigits : ∀ d ∈ digits, d.isDigit = true) :
    tailOf c digits = digits := by
  rw [tailOf, if_pos (by simpa using hc), List.takeWhile_eq_self_iff]
  exact hdigits

theorem isDigit_of_mem_tailOf
    {c d : Char} {rest : Text}
    (hmem : d ∈ tailOf c rest) :
    d.isDigit = true := by
  unfold tailOf at hmem
  split at hmem
  · exact List.mem_takeWhile_imp hmem
  · cases hmem

theorem tailOf_eq_nil
    {c : Char}
    (hdigit : c.isDigit = false)
    (hminus : c ≠ '-')
    (rest : Text) :
    tailOf c rest = [] := by
  rw [tailOf, if_neg (by simp [hdigit, hminus])]

theorem tailOf_leads
    (c : Char) (rest : Text) :
    tailOf c rest <+: rest := by
  unfold tailOf
  split
  · exact List.takeWhile_prefix Char.isDigit
  · exact List.nil_prefix

theorem tailOf_append_drop
    (c : Char) (rest : Text) :
    tailOf c rest ++ rest.drop (tailOf c rest).length = rest :=
  List.prefix_iff_eq_append.mp (tailOf_leads c rest)

/-- A piece with a pattern may begin with the character. -/
def Starts (c : Char) : Prop :=
  (symbolToken? c).isSome = true ∨ c.isDigit = true

theorem starts_minus :
    Starts '-' :=
  Or.inl rfl

theorem starts_of_matches
    {c : Char} {rest : Text}
    (hpiece : Matches (c :: rest)) :
    Starts c := by
  obtain ⟨hsymbol, -⟩ | ⟨hdigit | ⟨rfl, -⟩, -⟩ := matches_cons_iff.mp hpiece
  · exact Or.inl hsymbol
  · exact Or.inr hdigit
  · exact starts_minus

/-- A lexeme has a pattern if a piece with a pattern may begin like it. -/
theorem matches_front
    {c : Char}
    (hstarts : Starts c)
    (rest : Text) :
    Matches (c :: tailOf c rest) := by
  have hdigits : ∀ d ∈ tailOf c rest, d.isDigit = true := fun d hd => isDigit_of_mem_tailOf hd
  rw [matches_cons_iff]
  by_cases hdigit : c.isDigit = true
  · exact Or.inr ⟨Or.inl hdigit, hdigits⟩
  · have hsymbol := hstarts.resolve_right hdigit
    by_cases htail : tailOf c rest = []
    · exact Or.inl ⟨hsymbol, htail⟩
    · -- Only a minus takes along digits without being one.
      have hminus : c = '-' := by
        by_contra hminus
        exact htail (tailOf_eq_nil (Bool.eq_false_of_not_eq_true hdigit) hminus rest)
      exact Or.inr ⟨Or.inr ⟨hminus, htail⟩, hdigits⟩

/-- Any other lexeme is a single character. -/
theorem tailOf_of_not_starts
    {c : Char}
    (hstarts : ¬Starts c)
    (rest : Text) :
    tailOf c rest = [] := by
  refine tailOf_eq_nil (Bool.eq_false_of_not_eq_true (not_or.mp hstarts).2) ?_ rest
  rintro rfl
  exact hstarts starts_minus

/-- No piece with a pattern is longer than the lexeme. -/
theorem prefix_of_matches
    {c : Char} {piece rest : Text}
    (hpiece : Matches piece)
    (hleads : piece <+: c :: rest) :
    piece <+: c :: tailOf c rest := by
  cases piece with
  | nil =>
      exact List.nil_prefix
  | cons d more =>
      obtain ⟨rfl, later, rfl⟩ := List.cons_prefix_cons.mp hleads
      refine List.cons_prefix_cons.mpr ⟨rfl, ?_⟩
      obtain ⟨-, rfl⟩ | ⟨hd, hdigits⟩ := matches_cons_iff.mp hpiece
      · exact List.nil_prefix
      · rw [tailOf, if_pos (by simpa using hd.imp_right And.left),
          List.takeWhile_append_of_pos hdigits]
        exact List.prefix_append more _

end Lexeme
end InfixCalc
