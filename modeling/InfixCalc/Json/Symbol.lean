import InfixCalc.Json
import InfixCalc.Text.Decimal

/-!
# Symbols of a JSON text

Reading has two steps.  The first one, here, cuts a text into symbols:
punctuation, names, numbers and strings.  It reads character by character and
keeps only the symbol that is still open, so it is a fold of `step` over the
text.
-/

namespace InfixCalc
namespace Json

/-- A symbol of a JSON text. -/
inductive Symbol where
  | openArray
  | closeArray
  | openObject
  | closeObject
  | comma
  | colon
  /-- A value that has no parts: a name, a number or a string. -/
  | atom (value : Json)

namespace Symbol

/-- The symbol that is still open after a part of a text; collected characters
stand last one first. -/
inductive Mode where
  | between
  | name (opened : Text)
  | number (opened : Text)
  | string (opened : Text)
  /-- After a backslash in a string. -/
  | escape (opened : Text)
  /-- In the four digits of a code unit, `count` of them read, after the first
  half `high?` of a surrogate pair if there is one. -/
  | unit (opened : Text) (high? : Option Nat) (count value : Nat)
  /-- After the first half of a surrogate pair. -/
  | half (opened : Text) (high : Nat)
  /-- After the first half of a surrogate pair and a backslash. -/
  | halfEscape (opened : Text) (high : Nat)

/-- The value of a hexadecimal digit of either case. -/
def hexValue? (c : Char) : Option Nat :=
  if c.isDigit then some (c.toNat - '0'.toNat)
  else if 'a' ≤ c ∧ c ≤ 'f' then some (c.toNat - 'a'.toNat + 10)
  else if 'A' ≤ c ∧ c ≤ 'F' then some (c.toNat - 'A'.toNat + 10)
  else none

/-- The value that a name stands for. -/
def ofName? (name : Text) : Option Json :=
  if name = "null".toList then some .null
  else if name = "true".toList then some (.bool true)
  else if name = "false".toList then some (.bool false)
  else none

/-- Digits of a whole part: a single zero, or no zero in front. -/
def isWhole (digits : Text) : Bool :=
  match digits with
  | [] => false
  | ['0'] => true
  | c :: _ => c ≠ '0' && digits.all Char.isDigit

/-- One digit or more. -/
def isDigits (digits : Text) : Bool :=
  !digits.isEmpty && digits.all Char.isDigit

/-- What may follow the exponent mark: digits with or without a sign. -/
def isExponent : Text → Bool
  | '+' :: digits => isDigits digits
  | '-' :: digits => isDigits digits
  | digits => isDigits digits

/-- A character that marks an exponent. -/
def isExponentMark (c : Char) : Bool :=
  c = 'e' || c = 'E'

/-- What may follow the whole part of a number: a fraction, an exponent, or
both. -/
def isScale : Text → Bool
  | '.' :: rest =>
    isDigits (rest.takeWhile fun c => !isExponentMark c) &&
      match rest.dropWhile fun c => !isExponentMark c with
      | [] => true
      | _ :: exponent => isExponent exponent
  | c :: exponent => isExponentMark c && isExponent exponent
  | [] => false

/-- The number that a literal without its sign stands for, and whether the
sign is a minus. -/
def ofMagnitude? (negative : Bool) (literal magnitude : Text) : Option Json :=
  let whole := magnitude.takeWhile Char.isDigit
  if isWhole whole then
    match magnitude.dropWhile Char.isDigit with
    | [] =>
      if negative then
        if whole = ['0'] then
          some (.real literal)
        else
          some (.int (-(Text.digitsValue whole : Int)))
      else
        some (.int (Text.digitsValue whole : Int))
    | scale => if isScale scale then some (.real literal) else none
  else
    none

/-- The number that a literal stands for. -/
def ofNumber? (literal : Text) : Option Json :=
  match literal with
  | '-' :: magnitude => ofMagnitude? true literal magnitude
  | _ => ofMagnitude? false literal literal

/-- A character that may stand inside a number. -/
def continuesNumber (c : Char) : Bool :=
  c.isDigit || c = '+' || c = '-' || c = '.' || isExponentMark c

/-- Blanks of a JSON text. -/
def isSpace (c : Char) : Bool :=
  c = ' ' || c = '\t' || c = '\n' || c = '\r'

/-- Reads a character between two symbols. -/
def start? (c : Char) : Option (List Symbol × Mode) :=
  if isSpace c then some ([], .between)
  else if c = '[' then some ([openArray], .between)
  else if c = ']' then some ([closeArray], .between)
  else if c = '\x7b' then some ([openObject], .between)
  else if c = '\x7d' then some ([closeObject], .between)
  else if c = ',' then some ([comma], .between)
  else if c = ':' then some ([colon], .between)
  else if c = '"' then some ([], .string [])
  else if c.isDigit || c = '-' then some ([], .number [c])
  else if c.isLower then some ([], .name [c])
  else none

/-- The symbols that the end of the text closes. -/
def finish? : Mode → Option (List Symbol)
  | .between => some []
  | .name opened => (ofName? opened.reverse).map fun value => [atom value]
  | .number opened => (ofNumber? opened.reverse).map fun value => [atom value]
  | _ => none

/-- The character that an escape letter stands for. -/
def escaped? (c : Char) : Option Char :=
  if c = '"' || c = '\\' || c = '/' then some c
  else if c = 'b' then some '\x08'
  else if c = 'f' then some '\x0c'
  else if c = 'n' then some '\n'
  else if c = 'r' then some '\r'
  else if c = 't' then some '\t'
  else none

/-- Goes on after a whole code unit: a character, the first half of a pair, or
the second half after a first one.  Other halves are errors. -/
def afterUnit? (opened : Text) (high? : Option Nat) (unit : Nat) : Option Mode :=
  match high? with
  | none =>
    if 0xD800 ≤ unit ∧ unit < 0xDC00 then some (.half opened unit)
    else if 0xDC00 ≤ unit ∧ unit < 0xE000 then none
    else some (.string (Char.ofNat unit :: opened))
  | some high =>
    if 0xDC00 ≤ unit ∧ unit < 0xE000 then
      some (.string (Char.ofNat (0x10000 + (high - 0xD800) * 0x400 + (unit - 0xDC00)) :: opened))
    else
      none

/-- Reads one character: the symbols it closes, and what is open then. -/
def step? (mode : Mode) (c : Char) : Option (List Symbol × Mode) :=
  match mode with
  | .between => start? c
  | .name opened =>
    if c.isLower then
      some ([], .name (c :: opened))
    else
      closeAndStart
  | .number opened =>
    if continuesNumber c then
      some ([], .number (c :: opened))
    else
      closeAndStart
  | .string opened =>
    if c = '"' then some ([atom (.str opened.reverse)], .between)
    else if c = '\\' then some ([], .escape opened)
    else if c.toNat < 32 then none
    else some ([], .string (c :: opened))
  | .escape opened =>
    if c = 'u' then
      some ([], .unit opened none 0 0)
    else
      (escaped? c).map fun char => ([], .string (char :: opened))
  | .unit opened high? count value =>
    (hexValue? c).bind fun digit =>
      if count = 3 then
        (afterUnit? opened high? (16 * value + digit)).map fun next => ([], next)
      else
        some ([], .unit opened high? (count + 1) (16 * value + digit))
  | .half opened high =>
    if c = '\\' then some ([], .halfEscape opened high) else none
  | .halfEscape opened high =>
    if c = 'u' then some ([], .unit opened (some high) 0 0) else none
where
  closeAndStart : Option (List Symbol × Mode) :=
    (finish? mode).bind fun closed =>
      (start? c).map fun next => (closed ++ next.1, next.2)

/-- The symbols of a text that is read in a mode. -/
def scanFrom? : Mode → Text → Option (List Symbol)
  | mode, [] => finish? mode
  | mode, c :: rest =>
    (step? mode c).bind fun next =>
      (scanFrom? next.2 rest).map fun later => next.1 ++ later

/-- The symbols of a text. -/
def scan? (text : Text) : Option (List Symbol) :=
  scanFrom? .between text

end Symbol
end Json
end InfixCalc
