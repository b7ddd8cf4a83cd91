import InfixCalc.Text.Blank

/-!
# Records

What an operation notes while it works is a list of records, each with a
level.  Records are values like any other: an operation's journal is a
function of its input.
-/

namespace InfixCalc

/-- How much a record matters, the most severe level first. -/
inductive Level where
  | error
  | warn
  | info
  | debug
  | trace
  deriving DecidableEq, Repr

namespace Level

/-- Every level, the most severe first. -/
def all : List Level :=
  [error, warn, info, debug, trace]

/-- The place of a level, from zero for the most severe. -/
def place : Level → Nat
  | error => 0
  | warn => 1
  | info => 2
  | debug => 3
  | trace => 4

/-- The name of a level, in capitals. -/
def name : Level → Text
  | error => "ERROR".toList
  | warn => "WARN".toList
  | info => "INFO".toList
  | debug => "DEBUG".toList
  | trace => "TRACE".toList

end Level

/-- A note of an operation. -/
structure Record where
  level : Level
  message : Text
  deriving DecidableEq, Repr

namespace Record

/-- A record is written as its level, a space and its message. -/
def render (record : Record) : Text :=
  record.level.name ++ ' ' :: record.message

/-- Whether a reader who asks for `level` sees the record. -/
def visibleAt (level : Level) (record : Record) : Bool :=
  record.level.place ≤ level.place

/-- The records of `level` and of the more severe levels. -/
def upTo (level : Level) (records : List Record) : List Record :=
  records.filter (visibleAt level)

end Record
end InfixCalc
