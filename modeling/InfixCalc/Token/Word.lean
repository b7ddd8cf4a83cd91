import InfixCalc.Lexeme
import InfixCalc.Record
import InfixCalc.Text.Words

/-!
# Tokens of words and lines

A word is a token when its first lexeme has a token and covers the whole word;
`12ab` and `+-` are no tokens.  A line is cut into words, and the first word
that is no token is the error of the line.
-/

namespace InfixCalc

/-- Why a word is no token. -/
inductive LexError where
  /-- The word is neither a symbol nor a numeral that is in range. -/
  | malformedNumber (word : Text)
  deriving DecidableEq, Repr

namespace LexError

/-- The message of an error. -/
def message : LexError → Text
  | malformedNumber word => "malformed number: '".toList ++ word ++ ['\'']

end LexError

namespace Token

/-- The token that a whole word stands for. -/
def ofWord (word : Text) : Except LexError Token :=
  match Lexeme.scan word with
  | ⟨piece, _, some token⟩ :: _ =>
    if piece = word then .ok token else .error (.malformedNumber word)
  | _ => .error (.malformedNumber word)

/-- The readings of a line's words; reading goes on after a failure. -/
def readings (line : Text) : List (Except LexError Token) :=
  (Text.words line).map ofWord

/-- The tokens of a line, or the error of its first word that is no token. -/
def ofLine (line : Text) : Except LexError (List Token) :=
  (Text.words line).mapM ofWord

/-- The record of the reading of a word. -/
def wordRecord (word : Text) : Record :=
  match ofWord word with
  | .ok token =>
    ⟨.trace, "classified '".toList ++ word ++ "' as ".toList ++ token.describe⟩
  | .error _ => ⟨.debug, "failed to classify '".toList ++ word ++ ['\'']⟩

/-- The records of the readings of words up to the first failure. -/
def recordsOfWords : List Text → List Record
  | [] => []
  | word :: rest =>
    match ofWord word with
    | .ok _ => wordRecord word :: recordsOfWords rest
    | .error _ => [wordRecord word]

/-- The records of reading the tokens of a line. -/
def lineRecords (line : Text) : List Record :=
  recordsOfWords (Text.words line)

end Token
end InfixCalc
