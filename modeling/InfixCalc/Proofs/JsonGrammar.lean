import InfixCalc.Json.Symbol

/-!
# The grammar of JSON texts

What a JSON text is, and which value it has, is said here by a grammar, apart
from reading and writing.  A text may be spaced out, a string may escape its
characters in several ways, and the members of an object keep their order.

* `Grammar.Number`, `Grammar.Characters` : the texts of numbers and strings.
* `Grammar.Value` : the texts of a value.
* `Grammar.Element` : a value with spaces around it, as in a whole text.
-/

namespace InfixCalc
namespace Json
namespace Grammar

/-- Spaces between the parts of a text. -/
def Space (text : Text) : Prop :=
  ∀ c ∈ text, c = ' ' ∨ c = '\t' ∨ c = '\n' ∨ c = '\r'

/-- Decimal digits, one or more. -/
structure Digits (text : Text) : Prop where
  nonempty : text ≠ []
  digits : ∀ c ∈ text, c.isDigit = true

/-- The whole part of a number: a zero, or digits without a zero in front. -/
inductive Whole : Text → Prop
  | zero :
      Whole ['0']
  | digits {c : Char} {rest : Text} :
      c.isDigit = true →
      c ≠ '0' →
      (∀ d ∈ rest, d.isDigit = true) →
      Whole (c :: rest)

/-- An exponent, which may have a sign. -/
inductive Exponent : Text → Prop
  | mk {mark : Char} {sign digits : Text} :
      mark = 'e' ∨ mark = 'E' →
      sign = [] ∨ sign = ['+'] ∨ sign = ['-'] →
      Digits digits →
      Exponent (mark :: (sign ++ digits))

/-- What makes a number other than an integer. -/
inductive Scale : Text → Prop
  | fraction {digits : Text} :
      Digits digits →
      Scale ('.' :: digits)
  | exponent {exponent : Text} :
      Exponent exponent →
      Scale exponent
  | both {digits exponent : Text} :
      Digits digits →
      Exponent exponent →
      Scale ('.' :: (digits ++ exponent))

/-- The texts of a number. -/
inductive Number : Json → Text → Prop
  | natural {digits : Text} :
      Whole digits →
      Number (.int (Text.digitsValue digits)) digits
  | negative {digits : Text} :
      Whole digits →
      digits ≠ ['0'] →
      Number (.int (-(Text.digitsValue digits : Int))) ('-' :: digits)
  | negativeZero :
      Number (.real ['-', '0']) ['-', '0']
  | scaled {sign digits scale : Text} :
      sign = [] ∨ sign = ['-'] →
      Whole digits →
      Scale scale →
      Number (.real (sign ++ (digits ++ scale))) (sign ++ (digits ++ scale))

/-- The letters of short escapes, each with its character. -/
def shortEscapes : List (Char × Char) :=
  [('"', '"'), ('\\', '\\'), ('/', '/'), ('b', '\x08'), ('f', '\x0c'), ('n', '\n'),
    ('r', '\r'), ('t', '\t')]

/-- A code unit and its four hexadecimal digits. -/
inductive CodeUnit : Nat → Text → Prop
  | mk {first second third fourth : Char} {a b c d : Nat} :
      Symbol.hexValue? first = some a →
      Symbol.hexValue? second = some b →
      Symbol.hexValue? third = some c →
      Symbol.hexValue? fourth = some d →
      CodeUnit (16 * (16 * (16 * a + b) + c) + d) [first, second, third, fourth]

/-- The texts of a character inside a string. -/
inductive Character : Char → Text → Prop
  | plain {c : Char} :
      c ≠ '"' →
      c ≠ '\\' →
      0x20 ≤ c.toNat →
      Character c [c]
  | short {letter c : Char} :
      (letter, c) ∈ shortEscapes →
      Character c ['\\', letter]
  | unit {c : Char} {digits : Text} :
      CodeUnit c.toNat digits →
      Character c ('\\' :: 'u' :: digits)
  /-- A character that is written as a surrogate pair. -/
  | pair {c : Char} {high low : Nat} {first second : Text} :
      CodeUnit high first →
      CodeUnit low second →
      0xD800 ≤ high →
      high < 0xDC00 →
      0xDC00 ≤ low →
      low < 0xE000 →
      c.toNat = 0x10000 + (high - 0xD800) * 0x400 + (low - 0xDC00) →
      Character c ('\\' :: 'u' :: (first ++ '\\' :: 'u' :: second))

/-- The texts of the characters of a string, without the quotes. -/
inductive Characters : Text → Text → Prop
  | nil :
      Characters [] []
  | cons {c : Char} {rest first later : Text} :
      Character c first →
      Characters rest later →
      Characters (c :: rest) (first ++ later)

mutual

/-- The texts of a value. -/
inductive Value : Json → Text → Prop
  | null :
      Value .null ['n', 'u', 'l', 'l']
  | true :
      Value (.bool true) ['t', 'r', 'u', 'e']
  | false :
      Value (.bool false) ['f', 'a', 'l', 's', 'e']
  | number {value : Json} {text : Text} :
      Number value text →
      Value value text
  | string {content text : Text} :
      Characters content text →
      Value (.str content) ('"' :: (text ++ ['"']))
  | emptyArray {space : Text} :
      Space space →
      Value (.arr []) ('[' :: (space ++ [']']))
  | array {elements : List Json} {text : Text} :
      Elements elements text →
      Value (.arr elements) ('[' :: (text ++ [']']))
  | emptyObject {space : Text} :
      Space space →
      Value (.obj []) ('\x7b' :: (space ++ ['\x7d']))
  | object {members : List (Text × Json)} {text : Text} :
      Members members text →
      Value (.obj members) ('\x7b' :: (text ++ ['\x7d']))

/-- The texts of a value with spaces around it. -/
inductive Element : Json → Text → Prop
  | mk {value : Json} {before text after : Text} :
      Space before →
      Value value text →
      Space after →
      Element value (before ++ (text ++ after))

/-- The texts of the elements of an array. -/
inductive Elements : List Json → Text → Prop
  | last {value : Json} {text : Text} :
      Element value text →
      Elements [value] text
  | cons {value : Json} {rest : List Json} {text later : Text} :
      Element value text →
      Elements rest later →
      Elements (value :: rest) (text ++ ',' :: later)

/-- The texts of a member of an object: its key, a colon and its value. -/
inductive Member : Text × Json → Text → Prop
  | mk {key : Text} {value : Json} {before name between text : Text} :
      Space before →
      Characters key name →
      Space between →
      Element value text →
      Member (key, value) (before ++ '"' :: (name ++ '"' :: (between ++ ':' :: text)))

/-- The texts of the members of an object. -/
inductive Members : List (Text × Json) → Text → Prop
  | last {member : Text × Json} {text : Text} :
      Member member text →
      Members [member] text
  | cons {member : Text × Json} {rest : List (Text × Json)} {text later : Text} :
      Member member text →
      Members rest later →
      Members (member :: rest) (text ++ ',' :: later)

end

end Grammar
end Json
end InfixCalc
