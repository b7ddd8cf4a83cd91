import InfixCalc.Proofs.Lockstep
import InfixCalc.Proofs.Oblivious

/-!
# Calls that replay a sequence

A sequence in reverse Polish order can be replayed on a builder, call by call:
its operands as operands and its operators as reductions while tokens are being
read.  The sequence of a tree rebuilds the tree on the tree builder, unless it has
too many levels; then the first call that is refused says so.  On the sequence
builder it gives the sequence again.

* `Builder.driven` : what comes of calls on a fresh builder.
* `Builder.attemptAll_eq_replies` : the first refusal among the answers decides.
* `replay_toRpn` : what comes of replaying a tree.
-/

namespace InfixCalc
namespace Parse

namespace Builder

variable {σ α : Type}

/-- The error of the first call that is refused. -/
def firstRefusal?
    (builder : Builder σ α) (state : σ) (calls : List Call) : Option ParseError :=
  (builder.replies state calls).findSome? Reply.failure?

/-- What comes of calls on a fresh builder: the error of the first one that is
refused, or what is built in the end. -/
def driven
    (builder : Builder σ α) (calls : List Call) : Except ParseError (Finish α) :=
  match builder.firstRefusal? builder.initial calls with
  | some error => .error error
  | none => .ok (builder.finish (builder.stateAfter builder.initial calls))

/-- Calls that are attempted end with the first refusal among the answers, or in the
state after all of them. -/
theorem attemptAll_eq_replies
    (builder : Builder σ α) (state : σ) (calls : List Call) :
    builder.attemptAll state calls =
      match builder.firstRefusal? state calls with
      | some error => .error error
      | none => .ok (builder.stateAfter state calls) := by
  induction calls generalizing state with
  | nil =>
      rfl
  | cons call rest ih =>
      rw [attemptAll_cons, firstRefusal?, replies, List.findSome?_cons]
      cases hreply : (builder.perform call state).failure? with
      | some error =>
          rw [attempt_of_refused hreply, error_bind]
      | none =>
          rw [attempt_of_accepted hreply, ok_bind, ih]
          rfl

theorem driven_eq_attemptAll
    (builder : Builder σ α) (calls : List Call) :
    builder.driven calls = (builder.attemptAll builder.initial calls).map builder.finish := by
  rw [attemptAll_eq_replies, driven]
  cases builder.firstRefusal? builder.initial calls <;> rfl

end Builder

/-- The call that replays a token; a parenthesis or the bottom mark is no call. -/
def Call.ofToken? : Token → Option Call
  | .number value => some (.operand value)
  | .operator op => some (.reduce op)
  | _ => none

/-- The calls that replay a sequence. -/
def replay (rpn : Rpn) : List Call :=
  rpn.filterMap Call.ofToken?

theorem replay_append
    (first second : Rpn) :
    replay (first ++ second) = replay first ++ replay second :=
  List.filterMap_append

/-- The calls that replay a tree spell the tree. -/
theorem tokens_replay
    (tree : Expr) :
    Call.tokens (replay tree.toRpn) = tree.toRpn := by
  induction tree with
  | number value =>
      rfl
  | binary op left right ihLeft ihRight =>
      rw [Expr.toRpn, replay_append, replay_append, Call.tokens_append, Call.tokens_append,
        ihLeft, ihRight]
      rfl

theorem inStream_of_mem_replay
    {rpn : Rpn} {call : Call}
    (hcall : call ∈ replay rpn) :
    call.inStream := by
  obtain ⟨token, -, htoken⟩ := List.mem_filterMap.mp hcall
  cases token <;> cases htoken <;> rfl

/-- While tokens are being read the tree builder writes no warning: it takes no
operand to be zero. -/
theorem level_of_perform_inStream
    {call : Call} {subtrees : List Subtree} {record : Record}
    (hcall : call.inStream)
    (hrecord : record ∈ (treeBuilder.perform call subtrees).records) :
    record.level ≠ .warn := by
  cases call with
  | operand value =>
      cases hrecord
  | reduce op =>
      match subtrees with
      | [] =>
          cases hrecord
      | [_] =>
          cases hrecord
      | right :: left :: below =>
          exact level_of_combine hrecord
  | reduceTrailing op =>
      cases hcall

theorem level_of_mem_replies
    {calls : List Call} {subtrees : List Subtree} {reply : Reply (List Subtree)}
    (hcalls : ∀ call ∈ calls, call.inStream)
    (hreply : reply ∈ treeBuilder.replies subtrees calls) :
    ∀ record ∈ reply.records, record.level ≠ .warn := by
  induction calls generalizing subtrees with
  | nil =>
      cases hreply
  | cons call rest ih =>
      rw [List.forall_mem_cons] at hcalls
      rw [Builder.replies] at hreply
      rcases List.mem_cons.mp hreply with rfl | hlater
      · intro record hrecord
        exact level_of_perform_inStream hcalls.1 hrecord
      · exact ih hcalls.2 hlater

/-- Replaying the sequence of a tree builds the tree and nothing else, if it has at
most 2048 levels, and otherwise the first refusal is that it has more; no operand is
taken to be zero, and none is discarded.  The sequence builder builds the sequence. -/
theorem replay_toRpn
    (tree : Expr) :
    (treeBuilder.driven (replay tree.toRpn) =
      if tree.levels ≤ 2048 then
        .ok ⟨.ok tree, []⟩
      else
        .error (.treeTooDeep 2048)) ∧
    (∀ reply ∈ treeBuilder.replies treeBuilder.initial (replay tree.toRpn),
      ∀ record ∈ reply.records, record.level ≠ .warn) ∧
    rpnBuilder.driven (replay tree.toRpn) = .ok ⟨.ok tree.toRpn, []⟩ := by
  refine ⟨?_, ?_, ?_⟩
  · rw [Builder.driven_eq_attemptAll, initial_treeBuilder,
      TreeBuilder.attemptAll_of_toRpn tree [] (tokens_replay tree), maxLevels]
    by_cases hlevels : tree.levels ≤ 2048
    · rw [if_pos hlevels, if_pos hlevels]
      rfl
    · rw [if_neg hlevels, if_neg hlevels]
      rfl
  · intro reply hreply
    exact level_of_mem_replies (fun _ => inStream_of_mem_replay) hreply
  · rw [Builder.driven_eq_attemptAll, attemptAll_rpnBuilder, tokens_replay]
    simp [rpnBuilder, Except.map]

end Parse
end InfixCalc
