import InfixCalc.Proofs.Forest
import InfixCalc.Proofs.Oblivious

/-!
# One reduction for each operator

The pass moves operators but neither loses nor invents one: in a run that comes
to its end every operator of the tokens is reduced once, be it while tokens are
being read or after the last one.  So the sequence in reverse Polish order
consists of the operands, in their order, and of the operators.

* `Call.reduced` : the operators that calls reduce.
* `Rpn.Conserves` : what a sequence keeps of the tokens it was made from.
* `Rpn.conserves_of_ofInfix` : every sequence does, and every run that no call
  stops reduces each operator once.
-/

namespace InfixCalc

theorem Token.count_operators
    (op : Operator) (tokens : List Token) :
    (operators tokens).count op = tokens.count (.operator op) := by
  rw [operators, List.count_filterMap, List.count_eq_countP]
  congr 1
  funext token
  cases token with
  | operator other =>
      simp [operator?]
  | opening =>
      rfl
  | closing =>
      rfl
  | bottom =>
      rfl
  | number value =>
      rfl

namespace Parse

namespace Call

/-- The operator that a call reduces. -/
def reduced? : Call → Option Operator
  | operand _ => none
  | reduce op => some op
  | reduceTrailing op => some op

/-- The operators that calls reduce, in order. -/
def reduced (calls : List Call) : List Operator :=
  calls.filterMap reduced?

theorem operators_tokens
    (calls : List Call) :
    Token.operators (tokens calls) = reduced calls := by
  rw [Token.operators, tokens, List.filterMap_map, reduced]
  congr 1
  funext call
  cases call <;> rfl

/-- The token of a call is an operand or an operator. -/
theorem notMem_tokens
    {token : Token}
    (hvalue : token.value? = none) (hoperator : token.operator? = none)
    (calls : List Call) :
    token ∉ tokens calls := by
  intro hmem
  obtain ⟨call, _, rfl⟩ := List.mem_map.mp hmem
  cases call with
  | operand value =>
      cases hvalue
  | reduce op =>
      cases hoperator
  | reduceTrailing op =>
      cases hoperator

end Call

theorem reduced_calls
    {tokens : List Token}
    (hscan : bracketError? 0 tokens = none) :
    (Call.reduced (Pending.start.calls tokens)).Perm (Token.operators tokens) := by
  have hcompletes : Pending.start.Completes tokens := Pending.completes_of_scan hscan
  have hperm := Pending.operators_calls hcompletes
  rwa [Pending.waiting_start, List.nil_append, Call.operators_tokens] at hperm

end Parse

namespace Rpn

open Parse

/-- The sequence has the operands of the tokens in the same order, every
operator exactly as often as they have it, and nothing else. -/
structure Conserves (tokens : List Token) (rpn : Rpn) : Prop where
  values_eq :
    Token.values rpn = Token.values tokens
  count_operator (op : Operator) :
    rpn.count (.operator op) = tokens.count (.operator op)
  opening_notMem :
    .opening ∉ rpn
  closing_notMem :
    .closing ∉ rpn
  bottom_notMem :
    .bottom ∉ rpn
  length_eq :
    rpn.length = (Token.values tokens).length + (Token.operators tokens).length

theorem conserves_tokens_calls
    {tokens : List Token}
    (hscan : bracketError? 0 tokens = none) :
    Conserves tokens (Call.tokens (Pending.start.calls tokens)) := by
  have hcompletes : Pending.start.Completes tokens := Pending.completes_of_scan hscan
  have hvalues := Pending.values_calls hcompletes
  have hreduced := reduced_calls hscan
  rw [← Call.operators_tokens] at hreduced
  constructor
  case values_eq =>
    exact hvalues
  case count_operator =>
    intro op
    rw [← Token.count_operators, hreduced.count_eq, Token.count_operators]
  case opening_notMem =>
    exact Call.notMem_tokens rfl rfl _
  case closing_notMem =>
    exact Call.notMem_tokens rfl rfl _
  case bottom_notMem =>
    exact Call.notMem_tokens rfl rfl _
  case length_eq =>
    rw [Call.length_tokens, hvalues, hreduced.length_eq]

/-- The sequence of a token list keeps its operands in their order and all its
operators, and the pass that makes it reduces every operator once.  So does
every run on the same tokens in which no call is refused. -/
theorem conserves_of_ofInfix
    (tokens : List Token) (rpn : Rpn)
    (hrpn : Rpn.ofInfix tokens = .ok rpn) :
    Conserves tokens rpn ∧
      (Call.reduced (rpnRun tokens).calls).Perm (Token.operators tokens) ∧
      ∀ {σ α : Type} (builder : Builder σ α),
        (∀ reply ∈ builder.replies builder.initial (run builder tokens).calls,
          reply.failure? = none) →
        (Call.reduced (run builder tokens).calls).Perm (Token.operators tokens) := by
  obtain ⟨hscan, rfl⟩ := ofInfix_eq_ok.mp hrpn
  have hevery : ∀ {σ α : Type} (builder : Builder σ α),
      (∀ reply ∈ builder.replies builder.initial (run builder tokens).calls,
        reply.failure? = none) →
      (Call.reduced (run builder tokens).calls).Perm (Token.operators tokens) := by
    intro σ α builder haccepted
    rw [calls_of_accepted haccepted]
    exact reduced_calls hscan
  refine ⟨conserves_tokens_calls hscan, ?_, hevery⟩
  exact hevery rpnBuilder (Builder.accepted_of_neverRefuses neverRefuses_rpnBuilder _ _)

/-- In `( 1 + ) 2 - 3 3 *` the sum is reduced when its parenthesis is closed,
and the product and the difference after the last token. -/
theorem conserves_of_ofInfix_postponed :
    Conserves
        [.opening, .number 1, .operator .plus, .closing, .number 2, .operator .minus, .number 3,
          .number 3, .operator .times]
        [.number 1, .operator .plus, .number 2, .number 3, .number 3, .operator .times,
          .operator .minus] ∧
      (Call.reduced
          (run (Builder.counter none)
            [.opening, .number 1, .operator .plus, .closing, .number 2, .operator .minus,
              .number 3, .number 3, .operator .times]).calls).Perm
        [.plus, .minus, .times] := by
  obtain ⟨hconserves, _, hevery⟩ := conserves_of_ofInfix
    [.opening, .number 1, .operator .plus, .closing, .number 2, .operator .minus, .number 3,
      .number 3, .operator .times]
    [.number 1, .operator .plus, .number 2, .number 3, .number 3, .operator .times,
      .operator .minus]
    rfl
  refine ⟨hconserves, hevery (Builder.counter none) ?_⟩
  apply Builder.accepted_of_neverRefuses
  intro call state
  cases call <;> rfl

end Rpn
end InfixCalc
