import InfixCalc.Text.Blank

/-!
# Lines

A line ends at a line feed, and a carriage return directly before the line
feed belongs to the ending.  What follows the last line feed is one more line
if it is not empty; nothing is removed from it.
-/

namespace InfixCalc
namespace Text

/-- Removes one carriage return from the front. -/
def dropReturn : Text → Text
  | '\r' :: rest => rest
  | text => text

/-- The lines of a text after the characters `opened` of a line that has not
ended yet, last character first. -/
def linesFrom : Text → Text → List Text
  | [], [] => []
  | opened@(_ :: _), [] => [opened.reverse]
  | opened, c :: rest =>
    if c = '\n' then
      (dropReturn opened).reverse :: linesFrom [] rest
    else
      linesFrom (c :: opened) rest

/-- The lines of a text. -/
def lines (text : Text) : List Text :=
  linesFrom [] text

end Text
end InfixCalc
