import InfixCalc.Text.Blank

/-!
# Texts in bytes

Places and sizes count the bytes of a text in UTF-8.  A cut at a number of
bytes exists only where a character ends.
-/

namespace InfixCalc
namespace Text

/-- The number of bytes of a text in UTF-8. -/
def byteLength : Text → Nat
  | [] => 0
  | c :: rest => c.utf8Size + byteLength rest

/-- What is left without a number of bytes at the front, unless the cut would
fall inside a character or behind the end. -/
def dropBytes? (count : Nat) : Text → Option Text
  | [] => if count = 0 then some [] else none
  | c :: rest =>
    if count = 0 then some (c :: rest)
    else if c.utf8Size ≤ count then dropBytes? (count - c.utf8Size) rest
    else none

end Text
end InfixCalc
