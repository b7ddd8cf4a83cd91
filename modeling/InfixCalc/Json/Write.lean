import InfixCalc.Json
import InfixCalc.Text.Decimal

/-!
# Writing JSON

The written form puts every element and every member on a line of its own,
indented by two spaces a level; empty arrays and objects stay on one line.
`write` takes the text that follows the value, so that a value is written in
one pass.
-/

namespace InfixCalc
namespace Json

/-- The hexadecimal digit of a number below sixteen, in lower case. -/
def hexDigit (n : Nat) : Char :=
  Nat.digitChar (n % 16)

/-- A character inside a string: quotes, backslashes and control characters
are escaped, everything else stands for itself. -/
def escape (c : Char) : Text :=
  if c = '"' then ['\\', '"']
  else if c = '\\' then ['\\', '\\']
  else if c = '\x08' then ['\\', 'b']
  else if c = '\t' then ['\\', 't']
  else if c = '\n' then ['\\', 'n']
  else if c = '\x0c' then ['\\', 'f']
  else if c = '\r' then ['\\', 'r']
  else if c.toNat < 32 then
    ['\\', 'u', '0', '0', hexDigit (c.toNat / 16), hexDigit c.toNat]
  else [c]

/-- A string in quotes. -/
def quote (text : Text) : Text :=
  '"' :: text.flatMap escape ++ ['"']

/-- A line feed and the indentation of a level. -/
def newLine (level : Nat) : Text :=
  '\n' :: List.replicate (2 * level) ' '

mutual

/-- The written form of a value at a level, followed by `after`. -/
def write (level : Nat) : Json → Text → Text
  | null, after => "null".toList ++ after
  | bool true, after => "true".toList ++ after
  | bool false, after => "false".toList ++ after
  | int value, after => Text.ofInt value ++ after
  | real literal, after => literal ++ after
  | str text, after => quote text ++ after
  | arr [], after => '[' :: ']' :: after
  | arr (first :: rest), after =>
    '[' :: newLine (level + 1) ++
      write (level + 1) first (writeElements level rest after)
  | obj [], after => '\x7b' :: '\x7d' :: after
  | obj ((key, first) :: rest), after =>
    '\x7b' :: newLine (level + 1) ++ quote key ++ ':' :: ' ' ::
      write (level + 1) first (writeMembers level rest after)

/-- The elements of an array after the first one, and the closing bracket. -/
def writeElements (level : Nat) : List Json → Text → Text
  | [], after => newLine level ++ ']' :: after
  | next :: rest, after =>
    ',' :: newLine (level + 1) ++
      write (level + 1) next (writeElements level rest after)

/-- The members of an object after the first one, and the closing brace. -/
def writeMembers (level : Nat) : List (Text × Json) → Text → Text
  | [], after => newLine level ++ '\x7d' :: after
  | (key, next) :: rest, after =>
    ',' :: newLine (level + 1) ++ quote key ++ ':' :: ' ' ::
      write (level + 1) next (writeMembers level rest after)

end

/-- The written form of a whole value. -/
def render (value : Json) : Text :=
  write 0 value []

end Json
end InfixCalc
