import InfixCalc.Text.Blank

/-!
# Sources

What the program reads is bytes, from a file or from the standard input.  They
have to be the UTF-8 encoding of a text, and a file has to be there at all;
otherwise the source cannot be read for one of a few reasons.
-/

namespace InfixCalc
namespace Program

/-- Bytes as they stand in a file. -/
abbrev Bytes := List UInt8

/-- Why a source cannot be read. -/
inductive ReadError where
  | missing
  /-- A file is named as if it were a directory. -/
  | notDirectory
  | directory
  | nameTooLong
  | notText
  deriving DecidableEq, Repr

namespace ReadError

/-- The message of an error. -/
def message : ReadError → Text
  | missing => "No such file or directory (os error 2)".toList
  | notDirectory => "Not a directory (os error 20)".toList
  | directory => "Is a directory (os error 21)".toList
  | nameTooLong => "File name too long (os error 36)".toList
  | notText => "stream did not contain valid UTF-8".toList

end ReadError

/-- The bytes of a source, unless it cannot be read. -/
abbrev Content := Except ReadError Bytes

/-- The text that bytes encode in UTF-8. -/
def decodeText (bytes : Bytes) : Except ReadError Text :=
  match String.fromUTF8? ⟨bytes.toArray⟩ with
  | some text => .ok text.toList
  | none => .error .notText

/-- The text of a source. -/
def readText (content : Content) : Except ReadError Text :=
  content.bind decodeText

end Program
end InfixCalc
