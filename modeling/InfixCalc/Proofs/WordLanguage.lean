import InfixCalc.Proofs.Tiling
import InfixCalc.Token.Word

/-!
# The language of words

Only the first lexeme of a word is looked at, and only a word that this lexeme
covers is a token.  That is enough: what spells a token is one lexeme, however
long it is, so that the words with a token are exactly those that spell one.

* `Lexeme.tailOf_of_spells` : what spells a token is one lexeme.
* `Token.ofWord_eq_ok_iff` : a word has the token it spells.
* `Token.ofWord_eq_ok_iff_scan` : a word with a token is one lexeme with this token.
* `Token.ofWord_language` : the tokens and the errors of all words.
-/

namespace InfixCalc

namespace Lexeme

/-- A word that is one lexeme. -/
theorem scan_of_whole
    {c : Char} {rest : Text}
    (htail : tailOf c rest = rest) :
    scan (c :: rest) = [⟨c :: rest, 0, tokenOf? (c :: rest)⟩] := by
  rw [scan, scanFrom_cons, htail, List.drop_length, scanFrom_nil]

/-- A lexeme without neighbours is the whole text. -/
theorem text_of_scan
    {text : Text} {lexeme : Lexeme}
    (hscan : scan text = [lexeme]) :
    lexeme.text = text := by
  have hcovers : ((scan text).map Lexeme.text).flatten = text := (tiles_scanFrom 0 text).flatten_eq
  rwa [hscan, List.map_singleton, List.flatten_singleton] at hcovers

/-- What spells a token is one lexeme. -/
theorem tailOf_of_spells
    {c : Char} {rest : Text} {token : Token}
    (hspells : Spells (c :: rest) token) :
    tailOf c rest = rest := by
  cases hspells with
  | symbol hsymbol =>
      cases eq_nil_of_symbol hsymbol
      exact List.prefix_nil.mp (tailOf_leads c [])
  | number hnumeral _ =>
      obtain ⟨hc, hdigits⟩ := numeral_cons_iff.mp ⟨_, hnumeral⟩
      exact tailOf_of_digits (hc.imp_right And.left) hdigits

end Lexeme

theorem Spells.nonempty
    {piece : Text} {token : Token}
    (hspells : Spells piece token) :
    piece ≠ [] := by
  rintro rfl
  cases hspells with
  | symbol hsymbol =>
      exact Lexeme.not_matches_nil (Or.inl ⟨_, hsymbol⟩)
  | number hnumeral _ =>
      exact Lexeme.not_matches_nil (Or.inr ⟨_, hnumeral⟩)

theorem Spells.ne_bottom
    {piece : Text} {token : Token}
    (hspells : Spells piece token) :
    token ≠ .bottom := by
  rintro rfl
  cases hspells with
  | symbol hsymbol =>
      cases hsymbol

namespace Token

theorem ofWord_of_whole
    {c : Char} {rest : Text} {token : Token}
    (htail : Lexeme.tailOf c rest = rest)
    (htoken : Lexeme.tokenOf? (c :: rest) = some token) :
    ofWord (c :: rest) = .ok token := by
  rw [ofWord, Lexeme.scan_of_whole htail, htoken]
  exact if_pos rfl

theorem scan_of_ofWord
    {word : Text} {token : Token}
    (hword : ofWord word = .ok token) :
    ∃ start later, Lexeme.scan word = ⟨word, start, some token⟩ :: later := by
  unfold ofWord at hword
  split at hword
  · next piece start found later hscan =>
      split at hword
      · next hpiece =>
          cases hword
          exact ⟨start, later, hpiece ▸ hscan⟩
      · cases hword
  · cases hword

/-- A word has the token it spells. -/
theorem ofWord_eq_ok_iff
    {word : Text} {token : Token} :
    ofWord word = .ok token ↔ Spells word token := by
  constructor
  · intro hword
    obtain ⟨start, later, hscan⟩ := scan_of_ofWord hword
    cases word with
    | nil =>
        rw [Lexeme.scan, Lexeme.scanFrom_nil] at hscan
        cases hscan
    | cons c rest =>
        rw [Lexeme.scan, Lexeme.scanFrom_cons] at hscan
        injection hscan with hlexeme
        injection hlexeme with hpiece _ htoken
        rw [hpiece] at htoken
        exact Lexeme.tokenOf?_eq_some_iff.mp htoken
  · intro hspells
    obtain ⟨c, rest, rfl⟩ := List.exists_cons_of_ne_nil hspells.nonempty
    exact ofWord_of_whole (Lexeme.tailOf_of_spells hspells)
      (Lexeme.tokenOf?_eq_some_iff.mpr hspells)

theorem ne_bottom_of_ofWord
    {word : Text} {token : Token}
    (hword : ofWord word = .ok token) :
    token ≠ .bottom :=
  (ofWord_eq_ok_iff.mp hword).ne_bottom

theorem eq_malformedNumber_of_ofWord
    {word : Text} {error : LexError}
    (hword : ofWord word = .error error) :
    error = .malformedNumber word := by
  unfold ofWord at hword
  split at hword
  · split at hword
    · cases hword
    · cases hword
      rfl
  · cases hword
    rfl

/-- A word that spells no token is an error, and the error names it. -/
theorem ofWord_eq_error_iff
    {word : Text} {error : LexError} :
    ofWord word = .error error ↔
      error = .malformedNumber word ∧ ∀ token, ¬Spells word token := by
  constructor
  · intro hword
    refine ⟨eq_malformedNumber_of_ofWord hword, ?_⟩
    intro token hspells
    rw [ofWord_eq_ok_iff.mpr hspells] at hword
    cases hword
  · rintro ⟨rfl, hnone⟩
    cases hword : ofWord word with
    | ok token =>
        exact absurd (ofWord_eq_ok_iff.mp hword) (hnone token)
    | error error =>
        rw [eq_malformedNumber_of_ofWord hword]

/-- A word with a token is one lexeme with this token. -/
theorem ofWord_eq_ok_iff_scan
    {word : Text} {token : Token} :
    ofWord word = .ok token ↔
      ∃ lexeme, Lexeme.scan word = [lexeme] ∧ lexeme.token? = some token := by
  constructor
  · intro hword
    have hspells := ofWord_eq_ok_iff.mp hword
    obtain ⟨c, rest, rfl⟩ := List.exists_cons_of_ne_nil hspells.nonempty
    exact ⟨_, Lexeme.scan_of_whole (Lexeme.tailOf_of_spells hspells),
      Lexeme.tokenOf?_eq_some_iff.mpr hspells⟩
  · rintro ⟨⟨piece, start, found⟩, hscan, hfound⟩
    cases hfound
    cases Lexeme.text_of_scan hscan
    rw [ofWord, hscan]
    exact if_pos rfl

/-- A word has the token it spells, a word that spells none is an error that
names it, and a word with a token is one lexeme with this token; no word is the
bottom mark. -/
theorem ofWord_language
    (word : Text) :
    (∀ token, ofWord word = .ok token ↔ Spells word token) ∧
    (∀ error, ofWord word = .error error ↔
      error = .malformedNumber word ∧ ∀ token, ¬Spells word token) ∧
    (∀ token, ofWord word = .ok token ↔
      ∃ lexeme, Lexeme.scan word = [lexeme] ∧ lexeme.token? = some token) ∧
    ofWord word ≠ .ok .bottom := by
  refine ⟨fun _ => ofWord_eq_ok_iff, fun _ => ofWord_eq_error_iff,
    fun _ => ofWord_eq_ok_iff_scan, ?_⟩
  intro hbottom
  exact ne_bottom_of_ofWord hbottom rfl

/-- One more than the greatest operand. -/
example :
    ofWord "9223372036854775808".toList =
      .error (.malformedNumber "9223372036854775808".toList) := by
  cbv

end Token
end InfixCalc
