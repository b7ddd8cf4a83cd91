import InfixCalc.Parse.Builder

/-!
# The precedence pass

One pass over the tokens turns them into calls on a builder.  Operators wait
on a stack until an operator that binds no tighter, a closing parenthesis or
the end reduces them, so every operator associates to the left, powers
included.

Nesting is folded into priorities: every opening parenthesis multiplies the
scale by ten, and the priority of an operator is its rank times the scale.
One comparison of priorities then covers both precedence and depth, because
an operator inside parentheses has a higher priority than every operator
around them.

* `Parse.step` : the pass between two tokens.
* `Parse.run` : the whole pass, with everything that happened in it.
-/

namespace InfixCalc
namespace Parse

/-- How deep parentheses may be nested. -/
def maxNesting : Nat := 18

/-- An entry of the operator stack: a token with the priority it waits with. -/
structure Entry where
  token : Token
  priority : Nat
  deriving DecidableEq, Repr

namespace Entry

/-- The entry at the bottom of every stack. -/
def bottom : Entry := ⟨.bottom, 0⟩

/-- The entry of an open parenthesis; it gives way to no operator. -/
def opening : Entry := ⟨.opening, 0⟩

end Entry

/-- The pass between two tokens: the operator stack, its top first, the number
of open parentheses, and the scale of priorities at this depth. -/
structure Machine where
  stack : List Entry
  depth : Nat
  scale : Nat
  deriving DecidableEq, Repr

namespace Machine

/-- The pass before the first token. -/
def initial : Machine := ⟨[.bottom], 0, 1⟩

end Machine

/-- What happens in a pass. -/
inductive Event where
  | call (call : Call)
  | finish
  | note (record : Record)
  deriving DecidableEq, Repr

namespace Event

/-- The call of an event. -/
def call? : Event → Option Call
  | call made => some made
  | _ => none

/-- The record of an event. -/
def record? : Event → Option Record
  | note written => some written
  | _ => none

end Event

/-- The builder's state within a pass, and what happened, the last event
first. -/
structure Progress (σ : Type) where
  state : σ
  events : List Event

/-- A pass stops at its first error. -/
abbrev PassM (σ : Type) := EStateM ParseError (Progress σ)

/-- The records at the start of a pass. -/
def startRecords (tokens : List Token) : List Record :=
  [⟨.debug, "=== shunting_yard ===".toList⟩,
    ⟨.debug, "Input length: ".toList ++ Text.ofNat tokens.length⟩]

/-- The record of an operand that is read. -/
def operandRecord (value : Value) : Record :=
  ⟨.debug, "shift operand ".toList ++ Text.ofValue value⟩

/-- The record of an operator that goes onto the stack. -/
def pushRecord (op : Operator) (priority : Nat) : Record :=
  ⟨.debug, "push ".toList ++ op.render ++ " with priority ".toList ++
    Text.ofNat priority⟩

/-- The record of a closing parenthesis that closes nothing. -/
def unmatchedRecord : Record :=
  ⟨.error, "')' without a matching '('".toList⟩

/-- The record of an opening parenthesis that is never closed. -/
def unclosedRecord : Record :=
  ⟨.error, "'(' never closed".toList⟩

variable {σ α : Type}

/-- Writes a record. -/
def note (record : Record) : PassM σ Unit :=
  modify fun progress => ⟨progress.state, .note record :: progress.events⟩

/-- Makes a call on the builder, and stops if it is refused. -/
def call (builder : Builder σ α) (made : Call) : PassM σ Unit := fun progress =>
  let reply := builder.perform made progress.state
  let after : Progress σ :=
    ⟨reply.state, (reply.records.map .note).reverse ++ .call made :: progress.events⟩
  match reply.failure? with
  | none => .ok () after
  | some error => .error error after

/-- Asks the builder for what it built. -/
def finish (builder : Builder σ α) : PassM σ α := fun progress =>
  let finished := builder.finish progress.state
  let after : Progress σ :=
    ⟨progress.state, (finished.records.map .note).reverse ++ .finish :: progress.events⟩
  match finished.result with
  | .ok built => .ok built after
  | .error error => .error error after

/-- A closing parenthesis that closes nothing. -/
def unmatchedClosing : PassM σ (List Entry) := do
  note unmatchedRecord
  throw .unbalancedParenthesis

/-- Reduces the operators above the innermost open parenthesis and removes it;
answers the stack that is left. -/
def closeGroup (builder : Builder σ α) : List Entry → PassM σ (List Entry)
  | [] => unmatchedClosing
  | entry :: rest =>
    match entry.token with
    | .opening => pure rest
    | .bottom => unmatchedClosing
    | .operator op => do
      call builder (.reduce op)
      closeGroup builder rest
    | other => throw (.unexpectedToken other)

/-- Reduces the entries on top whose priority is at least `priority`; answers
the stack that is left. -/
def makeRoom (builder : Builder σ α) (priority : Nat) :
    List Entry → PassM σ (List Entry)
  | [] => pure []
  | entry :: rest =>
    if entry.token = .bottom ∨ entry.priority < priority then
      pure (entry :: rest)
    else
      match entry.token with
      | .operator op => do
        call builder (.reduce op)
        makeRoom builder priority rest
      | other => throw (.unexpectedToken other)

/-- Reads one token. -/
def step (builder : Builder σ α) (machine : Machine) (token : Token) :
    PassM σ Machine :=
  match token with
  | .number value => do
    note (operandRecord value)
    call builder (.operand value)
    return machine
  | .opening =>
    if machine.depth = maxNesting then
      throw (.nestingTooDeep maxNesting)
    else
      return ⟨.opening :: machine.stack, machine.depth + 1, machine.scale * 10⟩
  | .closing => do
    let stack ← closeGroup builder machine.stack
    return ⟨stack, machine.depth - 1, machine.scale / 10⟩
  | .operator op => do
    let priority := op.rank * machine.scale
    let stack ← makeRoom builder priority machine.stack
    note (pushRecord op priority)
    return ⟨⟨.operator op, priority⟩ :: stack, machine.depth, machine.scale⟩
  | .bottom => throw (.unexpectedToken .bottom)

/-- Reduces the operators that are left after the last token. -/
def drain (builder : Builder σ α) : List Entry → PassM σ Unit
  | [] => pure ()
  | entry :: rest =>
    match entry.token with
    | .bottom => pure ()
    | .operator op => do
      call builder (.reduceTrailing op)
      drain builder rest
    | .opening => do
      note unclosedRecord
      throw .unbalancedParenthesis
    | other => throw (.unexpectedToken other)

/-- The pass over a token list. -/
def pass (builder : Builder σ α) (tokens : List Token) : PassM σ α := do
  (startRecords tokens).forM note
  let machine ← tokens.foldlM (step builder) Machine.initial
  drain builder machine.stack
  finish builder

/-- A whole pass: its result and everything that happened, in order. -/
structure Run (α : Type) where
  result : Except ParseError α
  events : List Event

/-- Runs the pass on a fresh builder. -/
def run (builder : Builder σ α) (tokens : List Token) : Run α :=
  match pass builder tokens ⟨builder.initial, []⟩ with
  | .ok built progress => ⟨.ok built, progress.events.reverse⟩
  | .error error progress => ⟨.error error, progress.events.reverse⟩

namespace Run

/-- The calls that were made on the builder. -/
def calls (run : Run α) : List Call :=
  run.events.filterMap Event.call?

/-- The records of the pass and of the builder. -/
def records (run : Run α) : List Record :=
  run.events.filterMap Event.record?

end Run
end Parse
end InfixCalc
