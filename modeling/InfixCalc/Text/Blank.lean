/-!
# Text and blank characters

Everything the library reads or writes is a `Text`, a list of characters, so
that reading and printing are plain recursions on lists.

A character is blank when it has the Unicode property White_Space.  The
property is the table `blankRanges`; no other notion of white space is used
anywhere in the library.
-/

namespace InfixCalc

/-- A text is a list of characters. -/
abbrev Text := List Char

namespace Text

/-- The code points with the property White_Space, as closed ranges in
increasing order. -/
def blankRanges : List (Nat × Nat) :=
  [(0x09, 0x0D), (0x20, 0x20), (0x85, 0x85), (0xA0, 0xA0), (0x1680, 0x1680),
   (0x2000, 0x200A), (0x2028, 0x2029), (0x202F, 0x202F), (0x205F, 0x205F),
   (0x3000, 0x3000)]

/-- A character is blank when its code point lies in one of the ranges. -/
def isBlank (c : Char) : Bool :=
  blankRanges.any fun range => range.1 ≤ c.toNat && c.toNat ≤ range.2

/-- The table has twenty-five code points. -/
example : (blankRanges.map fun range => range.2 + 1 - range.1).sum = 25 := by
  decide

/-- A text of blanks only. -/
def allBlank (text : Text) : Bool :=
  text.all isBlank

/-- Cuts the blanks at both ends. -/
def trim (text : Text) : Text :=
  ((text.dropWhile isBlank).reverse.dropWhile isBlank).reverse

end Text
end InfixCalc
