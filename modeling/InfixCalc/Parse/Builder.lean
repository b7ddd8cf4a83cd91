import InfixCalc.Parse.Error
import InfixCalc.Record

/-!
# Builders

Parsing an expression is split in two.  The pass decides when an operator is
reduced, and a builder decides what reducing means.  A builder gets every
operand and every reduction as a call on its state; it may refuse a reduction
with an error, and the state it then leaves behind is its own choice.
-/

namespace InfixCalc
namespace Parse

/-- A call on a builder. -/
inductive Call where
  | operand (value : Value)
  /-- A reduction while tokens are still being read. -/
  | reduce (op : Operator)
  /-- A reduction after the last token. -/
  | reduceTrailing (op : Operator)
  deriving DecidableEq, Repr

/-- The answer to a call: the state after it, the records that were written,
and the error if the call is refused. -/
structure Reply (σ : Type) where
  state : σ
  records : List Record
  failure? : Option ParseError

/-- What a builder comes to in the end. -/
structure Finish (α : Type) where
  result : Except ParseError α
  records : List Record

/-- A builder with states in `σ` that builds an `α`. -/
structure Builder (σ α : Type) where
  initial : σ
  operand : Value → σ → σ
  reduce : Operator → σ → Reply σ
  reduceTrailing : Operator → σ → Reply σ
  finish : σ → Finish α

namespace Builder

variable {σ α : Type}

/-- The answer of a builder to a call; operands are never refused. -/
def perform (builder : Builder σ α) (call : Call) (state : σ) : Reply σ :=
  match call with
  | .operand value => ⟨builder.operand value state, [], none⟩
  | .reduce op => builder.reduce op state
  | .reduceTrailing op => builder.reduceTrailing op state

/-- The answers to a list of calls, every call made on the state that the one
before it left, refused or not. -/
def replies (builder : Builder σ α) : σ → List Call → List (Reply σ)
  | _, [] => []
  | state, call :: rest =>
    builder.perform call state ::
      builder.replies (builder.perform call state).state rest

/-- A builder that builds nothing, refuses the reduction number `refuseAt?`,
and answers the number of reductions. -/
def counter (refuseAt? : Option Nat) : Builder Nat Nat where
  initial := 0
  operand _ count := count
  reduce op count := next op count
  reduceTrailing op count := next op count
  finish count := ⟨.ok count, []⟩
where
  next (op : Operator) (count : Nat) : Reply Nat :=
    ⟨count + 1, [],
      if refuseAt? = some (count + 1) then some (.missingOperand op) else none⟩

end Builder
end Parse
end InfixCalc
