import InfixCalc.Text.Bytes
import InfixCalc.Token

/-!
# Lexemes

The scan tiles a text with lexemes, each the longest piece at its place that
is one of the eight symbols or a numeral.  A minus directly before a digit
belongs to the numeral.  A numeral whose value is out of range is one
lexeme without a token, and so is every single character that starts neither a
symbol nor a numeral; white space is no exception.

* `Lexeme.tokenOf?` : the token a piece stands for.
* `Lexeme.scan` : the lexemes of a text, with their places in bytes.
-/

namespace InfixCalc

/-- A piece of a text, the byte at which it starts, and its token if it has
one. -/
structure Lexeme where
  text : Text
  start : Nat
  token? : Option Token
  deriving DecidableEq, Repr

namespace Lexeme

/-- The byte after the last one of the lexeme. -/
def stop (lexeme : Lexeme) : Nat :=
  lexeme.start + Text.byteLength lexeme.text

/-- The token of a character that is a symbol. -/
def symbolToken? : Char → Option Token
  | '+' => some (.operator .plus)
  | '-' => some (.operator .minus)
  | '*' => some (.operator .times)
  | '/' => some (.operator .divide)
  | '%' => some (.operator .modulo)
  | '^' => some (.operator .power)
  | '(' => some .opening
  | ')' => some .closing
  | _ => none

/-- The token that a piece stands for: a lone symbol, or a numeral whose value
is in range. -/
def tokenOf? (piece : Text) : Option Token :=
  match piece with
  | [c] =>
    match symbolToken? c with
    | some token => some token
    | none => numeral piece
  | _ => numeral piece
where
  numeral (piece : Text) : Option Token :=
    (Text.numeralValue? piece).bind fun value =>
      (Value.ofInt? value).map Token.number

/-- The characters after the first one that still belong to its lexeme: a
digit or a minus takes along the digits behind it. -/
def tailOf (c : Char) (rest : Text) : Text :=
  if c.isDigit || c == '-' then
    rest.takeWhile Char.isDigit
  else
    []

/-- The lexemes of a text whose first character is at byte `start`. -/
def scanFrom (start : Nat) : Text → List Lexeme
  | [] => []
  | c :: rest =>
    let piece := c :: tailOf c rest
    ⟨piece, start, tokenOf? piece⟩ ::
      scanFrom (start + Text.byteLength piece) (rest.drop (tailOf c rest).length)
  termination_by text => text.length
  decreasing_by
    simp only [List.length_drop, List.length_cons]
    omega

/-- The lexemes of a text. -/
def scan (text : Text) : List Lexeme :=
  scanFrom 0 text

end Lexeme
end InfixCalc
