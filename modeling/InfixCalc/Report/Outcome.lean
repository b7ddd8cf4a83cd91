import InfixCalc.Arithmetic
import InfixCalc.Parse.Error
import InfixCalc.Token.Word

/-!
# Failures and outcomes

A failure along the way of a line is an error of reading, of parsing or of
evaluation.  An outcome is what a report keeps: a value, or the message of the
failure that prevented it.
-/

namespace InfixCalc

/-- An error of any stage. -/
inductive Failure where
  | lex (error : LexError)
  | parse (error : ParseError)
  | eval (error : EvalError)
  deriving DecidableEq, Repr

namespace Failure

/-- The message of a failure is the message of its error. -/
def message : Failure → Text
  | lex error => error.message
  | parse error => error.message
  | eval error => error.message

end Failure

/-- A value, or the message of the failure that prevented it. -/
inductive Outcome (α : Type) where
  | value (value : α)
  | error (message : Text)
  deriving DecidableEq, Repr

namespace Outcome

variable {α ε : Type}

/-- The outcome of a result whose errors have messages. -/
def ofExcept (message : ε → Text) (result : Except ε α) : Outcome α :=
  match result with
  | .ok found => .value found
  | .error failure => .error (message failure)

/-- Whether the value is missing. -/
def isError : Outcome α → Bool
  | .value _ => false
  | .error _ => true

/-- The text of an outcome, given the text of its value. -/
def render (text : α → Text) (outcome : Outcome α) : Text :=
  match outcome with
  | .value found => text found
  | .error message => "error: ".toList ++ message

end Outcome
end InfixCalc
