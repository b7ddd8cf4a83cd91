import InfixCalc.Expr
import InfixCalc.Proofs.Operands
import InfixCalc.Proofs.Pending

/-!
# What the calls of the pass keep of its tokens

When the scan of the parentheses finds no error, the calls of the pass have the
operands of its tokens, in their order, and each operator exactly as often as
the tokens and the waiting operators have it.  The calls are made in two
phases: reductions after the last token only follow all other calls.

* `Pending.values_calls`, `Pending.operators_calls` : the two facts for any
  state of the pass.
* `Pending.mem_of_mem_calls` : no call has an operator of its own, whatever the
  scan finds.
* `Pending.calls_eq_append` : the two phases.
-/

namespace InfixCalc
namespace Parse

namespace Call

/-- The token of a call in reverse Polish order. -/
def token : Call → Token
  | operand value => .number value
  | reduce op => .operator op
  | reduceTrailing op => .operator op

@[simp] theorem token_operand
    (value : Value) :
    token (.operand value) = .number value := by
  rfl

@[simp] theorem token_reduce
    (op : Operator) :
    token (.reduce op) = .operator op := by
  rfl

@[simp] theorem token_reduceTrailing
    (op : Operator) :
    token (.reduceTrailing op) = .operator op := by
  rfl

/-- Whether a call is made while tokens are still being read. -/
def inStream : Call → Bool
  | reduceTrailing _ => false
  | _ => true

/-- The tokens of calls in reverse Polish order. -/
def tokens (calls : List Call) : Rpn :=
  calls.map token

@[simp] theorem tokens_nil :
    tokens [] = [] := by
  rfl

@[simp] theorem tokens_cons
    (call : Call) (rest : List Call) :
    tokens (call :: rest) = call.token :: tokens rest := by
  rfl

@[simp] theorem tokens_append
    (first second : List Call) :
    tokens (first ++ second) = tokens first ++ tokens second := by
  exact List.map_append

/-- Every token of a call is an operand or an operator. -/
theorem length_tokens
    (calls : List Call) :
    (tokens calls).length =
      (Token.values (tokens calls)).length + (Token.operators (tokens calls)).length := by
  induction calls with
  | nil =>
      rfl
  | cons call rest ih =>
      cases call with
      | operand value =>
          simp [ih]
          omega
      | reduce op =>
          simp [ih]
          omega
      | reduceTrailing op =>
          simp [ih]
          omega

end Call

namespace Pending

/-- All operators that wait, at any level. -/
def waiting (pending : Pending) : List Operator :=
  pending.inner ++ pending.outer.flatten

@[simp] theorem waiting_start :
    waiting start = [] := by
  rfl

@[simp] theorem tokens_reductions
    (operators : List Operator) :
    Call.tokens (reductions operators) = operators.map .operator := by
  simp [Call.tokens, reductions]

@[simp] theorem tokens_trailingReductions
    (operators : List Operator) :
    Call.tokens (trailingReductions operators) = operators.map .operator := by
  simp [Call.tokens, trailingReductions]

theorem inStream_of_mem_reductions
    {operators : List Operator} {call : Call}
    (hcall : call ∈ reductions operators) :
    call.inStream := by
  obtain ⟨op, _, rfl⟩ := List.mem_map.mp hcall
  rfl

/-- The pass reads all tokens that are left, and every parenthesis is closed in
the end. -/
inductive Completes : Pending → List Token → Prop
  | nil (inner : List Operator) :
      Completes ⟨inner, []⟩ []
  | number {pending : Pending} {rest : List Token} (value : Value) :
      Completes pending rest →
      Completes pending (.number value :: rest)
  | opening {inner : List Operator} {outer : List (List Operator)} {rest : List Token} :
      outer.length ≠ maxNesting →
      Completes ⟨[], inner :: outer⟩ rest →
      Completes ⟨inner, outer⟩ (.opening :: rest)
  | closing {inner level : List Operator} {outer : List (List Operator)}
      {rest : List Token} :
      Completes ⟨level, outer⟩ rest →
      Completes ⟨inner, level :: outer⟩ (.closing :: rest)
  | operator {inner : List Operator} {outer : List (List Operator)} {rest : List Token}
      (op : Operator) :
      Completes ⟨op :: staying op inner, outer⟩ rest →
      Completes ⟨inner, outer⟩ (.operator op :: rest)

/-- The scan of the parentheses alone decides whether the pass completes. -/
theorem completes_of_scan
    {tokens : List Token} {pending : Pending}
    (hscan : bracketError? pending.depth tokens = none) :
    Completes pending tokens := by
  induction tokens generalizing pending with
  | nil =>
      obtain ⟨inner, outer⟩ := pending
      cases outer with
      | nil =>
          exact .nil inner
      | cons level outer =>
          cases hscan
  | cons token rest ih =>
      obtain ⟨inner, outer⟩ := pending
      cases token with
      | number value =>
          rw [bracketError?] at hscan
          exact .number value (ih hscan)
      | opening =>
          rw [bracketError?] at hscan
          split at hscan
          next hdepth =>
              cases hscan
          next hdepth =>
              exact .opening hdepth (@ih ⟨[], inner :: outer⟩ hscan)
      | closing =>
          cases outer with
          | nil =>
              cases hscan
          | cons level outer =>
              exact .closing (@ih ⟨level, outer⟩ hscan)
      | operator op =>
          rw [bracketError?] at hscan
          exact .operator op (@ih ⟨op :: staying op inner, outer⟩ hscan)
      | bottom =>
          rw [bracketError?] at hscan
          cases hscan

/-- The calls have the operands of the tokens, in the same order. -/
theorem values_calls
    {pending : Pending} {tokens : List Token}
    (hcompletes : Completes pending tokens) :
    Token.values (Call.tokens (pending.calls tokens)) = Token.values tokens := by
  induction hcompletes with
  | nil inner =>
      simp
  | number value _ ih =>
      simp [ih]
  | opening hdepth _ ih =>
      simp [calls_opening, hdepth, ih]
  | closing _ ih =>
      simp [ih]
  | operator op _ ih =>
      simp [ih]

/-- The calls have each operator that waits and each operator of the tokens
exactly once. -/
theorem operators_calls
    {pending : Pending} {tokens : List Token}
    (hcompletes : Completes pending tokens) :
    (Token.operators (Call.tokens (pending.calls tokens))).Perm
      (pending.waiting ++ Token.operators tokens) := by
  induction hcompletes with
  | nil inner =>
      simp [waiting]
  | number value _ ih =>
      simpa using ih
  | opening hdepth _ ih =>
      simpa [calls_opening, hdepth, waiting] using ih
  | @closing inner level outer rest _ ih =>
      simpa [waiting] using ih.append_left inner
  | @operator inner outer rest op _ ih =>
      have hlevel :
          giving op inner ++ (staying op inner ++ outer.flatten) = inner ++ outer.flatten := by
        rw [← List.append_assoc, giving_append_staying]
      -- the operator moves from the head of the tokens onto its level
      have hmove :
          (staying op inner ++ outer.flatten ++ op :: Token.operators rest).Perm
            (op :: (staying op inner ++ outer.flatten ++ Token.operators rest)) :=
        List.perm_middle
      have hlater := (ih.trans (by simpa [waiting] using hmove.symm)).append_left (giving op inner)
      simpa [waiting, ← hlevel] using hlater

/-- A call has an operator that waited or is still read. -/
theorem mem_of_mem_calls
    {op : Operator} {call : Call} {pending : Pending} {tokens : List Token}
    (hop : call.token = .operator op)
    (hcall : call ∈ pending.calls tokens) :
    op ∈ pending.waiting ++ Token.operators tokens := by
  have hreduced : ∀ {operators : List Operator},
      call ∈ reductions operators → op ∈ operators := by
    intro operators hmem
    obtain ⟨found, hfound, rfl⟩ := List.mem_map.mp hmem
    cases hop
    exact hfound
  induction tokens generalizing pending with
  | nil =>
      obtain ⟨inner, outer⟩ := pending
      rw [calls_nil] at hcall
      obtain ⟨found, hfound, rfl⟩ := List.mem_map.mp hcall
      cases hop
      simp [waiting, hfound]
  | cons token rest ih =>
      obtain ⟨inner, outer⟩ := pending
      cases token with
      | number value =>
          rw [calls_number] at hcall
          rcases List.mem_cons.mp hcall with rfl | hlater
          · cases hop
          · exact ih hlater
      | opening =>
          rw [calls_opening] at hcall
          split at hcall
          · cases hcall
          · simpa [waiting] using ih hcall
      | closing =>
          cases outer with
          | nil =>
              rw [calls_closing_unmatched] at hcall
              simp [waiting, hreduced hcall]
          | cons level outer =>
              rw [calls_closing] at hcall
              rcases List.mem_append.mp hcall with hnow | hlater
              · simp [waiting, hreduced hnow]
              · have hrest := List.mem_append_right inner (ih hlater)
                simpa [waiting] using hrest
      | operator next =>
          have hlevel := giving_append_staying next inner
          rw [calls_operator] at hcall
          rw [waiting, ← hlevel]
          rcases List.mem_append.mp hcall with hnow | hlater
          · simp [hreduced hnow]
          · have hrest := ih hlater
            simp only [waiting, List.mem_append, List.mem_cons] at hrest
            rcases hrest with ((rfl | hstays) | houter) | hread
            · simp
            · simp [hstays]
            · simp [houter]
            · simp [hread]
      | bottom =>
          rw [calls_bottom] at hcall
          cases hcall

/-- The calls up to the last token come first, then the reductions of the
operators that are left. -/
theorem calls_eq_append
    {pending : Pending} {tokens : List Token}
    (hcompletes : Completes pending tokens) :
    ∃ early left,
      pending.calls tokens = early ++ trailingReductions left ∧
      ∀ call ∈ early, call.inStream := by
  induction hcompletes with
  | nil inner =>
      exact ⟨[], inner, by simp, by simp⟩
  | number value _ ih =>
      obtain ⟨early, left, hcalls, hearly⟩ := ih
      refine ⟨.operand value :: early, left, by simp [hcalls], ?_⟩
      simpa [Call.inStream] using hearly
  | opening hdepth _ ih =>
      obtain ⟨early, left, hcalls, hearly⟩ := ih
      exact ⟨early, left, by simp [calls_opening, hdepth, hcalls], hearly⟩
  | @closing inner level outer rest _ ih =>
      obtain ⟨early, left, hcalls, hearly⟩ := ih
      refine ⟨reductions inner ++ early, left, by simp [hcalls], ?_⟩
      intro call hcall
      rcases List.mem_append.mp hcall with hreduce | hlater
      · exact inStream_of_mem_reductions hreduce
      · exact hearly call hlater
  | @operator inner outer rest op _ ih =>
      obtain ⟨early, left, hcalls, hearly⟩ := ih
      refine ⟨reductions (giving op inner) ++ early, left, by simp [hcalls], ?_⟩
      intro call hcall
      rcases List.mem_append.mp hcall with hreduce | hlater
      · exact inStream_of_mem_reductions hreduce
      · exact hearly call hlater

/-- No call of the first phase follows a call of the second. -/
theorem pairwise_calls
    {pending : Pending} {tokens : List Token}
    (hcompletes : Completes pending tokens) :
    (pending.calls tokens).Pairwise fun earlier later =>
      later.inStream → earlier.inStream := by
  obtain ⟨early, left, hcalls, hearly⟩ := calls_eq_append hcompletes
  rw [hcalls, List.pairwise_append]
  refine ⟨?_, ?_, ?_⟩
  · exact List.pairwise_of_forall_mem_list fun earlier hmem later _ _ => hearly earlier hmem
  · refine List.pairwise_of_forall_mem_list fun earlier _ later hmem hstream => ?_
    obtain ⟨op, _, rfl⟩ := List.mem_map.mp hmem
    cases hstream
  · intro earlier hmem later _ _
    exact hearly earlier hmem

end Pending
end Parse
end InfixCalc
