import InfixCalc.Text.Blank

/-!
# Words

The words of a text are its maximal runs of characters that are not blank, in
order.  `wordsFrom` reads the text once and carries the word that is still
open, last character first.
-/

namespace InfixCalc
namespace Text

/-- Closes the open word: it becomes a word of its own unless it is empty. -/
def closeWord (opened : Text) (later : List Text) : List Text :=
  match opened with
  | [] => later
  | _ :: _ => opened.reverse :: later

/-- The words of a text after the characters `opened` of a word that has not
ended yet, last character first. -/
def wordsFrom : Text → Text → List Text
  | opened, [] => closeWord opened []
  | opened, c :: rest =>
    if isBlank c then
      closeWord opened (wordsFrom [] rest)
    else
      wordsFrom (c :: opened) rest

/-- The words of a text. -/
def words (text : Text) : List Text :=
  wordsFrom [] text

/-- Writes the parts with the separator between neighbours. -/
def joinWith (separator : Text) : List Text → Text
  | [] => []
  | [part] => part
  | part :: next :: rest => part ++ separator ++ joinWith separator (next :: rest)

/-- Writes words with one space between neighbours. -/
def unwords (parts : List Text) : Text :=
  joinWith [' '] parts

/-- Writes lines with one line feed between neighbours. -/
def unlines (parts : List Text) : Text :=
  joinWith ['\n'] parts

end Text
end InfixCalc
