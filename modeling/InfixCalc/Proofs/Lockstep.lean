import InfixCalc.Proofs.Forest
import InfixCalc.Proofs.StackRun
import Mathlib.Data.List.Forall2

/-!
# The tree builder and the stack evaluator in lockstep

The calls of a pass are read twice: the tree builder combines subtrees, and the
evaluator of sequences reads their tokens on a stack of values.  As long as
neither fails, every value is the value of the subtree at the same place.  So
the evaluator is short of values exactly when the builder is short of
subtrees, and for the same operator.

* `Lockstep` : the two stacks correspond.
* `lockstep_attempt` : one call, `lockstep_attemptAll` : any calls.
-/

namespace InfixCalc
namespace Parse

/-- Every value is that of the subtree at the same place. -/
def Lockstep : List Value → List Subtree → Prop :=
  List.Forall₂ fun value subtree => subtree.tree.evaluate = .ok value

/-- How reading calls on two stacks may come out. -/
inductive LockstepOutcome (values : List Value) (subtrees : List Subtree)
    (calls : List Call) : Prop
  /-- The builder refuses a tree with too many levels. -/
  | tooDeep
      (hbuild : treeBuilder.attemptAll subtrees calls = .error (.treeTooDeep maxLevels))
  /-- Both go on to the end, and their stacks correspond. -/
  | agreement {valuesAfter : List Value} {subtreesAfter : List Subtree}
      (hrun : Rpn.stackRun values (Call.tokens calls) = .ok valuesAfter)
      (hbuild : treeBuilder.attemptAll subtrees calls = .ok subtreesAfter)
      (hstacks : Lockstep valuesAfter subtreesAfter)
  /-- The arithmetic fails. -/
  | arithmetic {error : EvalError}
      (herror : error.IsArithmetic)
      (hrun : Rpn.stackRun values (Call.tokens calls) = .error error)
  /-- The stacks are too short for the reduction `call`. -/
  | short {earlier later : List Call} {call : Call} {op : Operator} {left : List Subtree}
      (hcalls : calls = earlier ++ call :: later)
      (hcall : call.token = .operator op)
      (hrun : Rpn.stackRun values (Call.tokens calls) = .error (.insufficientOperands op))
      (hbuild : treeBuilder.attemptAll subtrees earlier = .ok left)
      (hleft : left.length < 2)

/-- What one call does to corresponding stacks. -/
theorem lockstep_attempt
    {values : List Value} {subtrees : List Subtree}
    (hstacks : Lockstep values subtrees)
    (call : Call) :
    treeBuilder.attempt subtrees call = .error (.treeTooDeep maxLevels) ∨
    (∃ valuesAfter subtreesAfter,
      Rpn.stackStep values call.token = .ok valuesAfter ∧
      treeBuilder.attempt subtrees call = .ok subtreesAfter ∧
      Lockstep valuesAfter subtreesAfter) ∨
    (∃ error : EvalError,
      error.IsArithmetic ∧
      Rpn.stackStep values call.token = .error error) ∨
    (∃ op,
      call.token = .operator op ∧
      Rpn.stackStep values call.token = .error (.insufficientOperands op) ∧
      subtrees.length < 2) := by
  cases hcall : call.token with
  | number value =>
      obtain rfl : call = .operand value := by
        cases call <;> simp_all
      refine Or.inr (Or.inl ⟨value :: values, _, rfl, Builder.attempt_operand _ _ _, ?_⟩)
      exact .cons (Expr.evaluate_number value) hstacks
  | operator op =>
      cases hstacks with
      | nil =>
          exact Or.inr (Or.inr (Or.inr ⟨op, rfl, rfl, by simp⟩))
      | @cons second right values subtrees hright hbelow =>
          cases hbelow with
          | nil =>
              exact Or.inr (Or.inr (Or.inr ⟨op, rfl, rfl, by simp⟩))
          | @cons first left values subtrees hleft hbelow =>
              rw [TreeBuilder.attempt_of_token hcall]
              by_cases hlevels : maxLevels < 1 + max left.levels right.levels
              · exact Or.inl (if_pos hlevels)
              · rw [if_neg hlevels]
                cases happly : op.apply first second with
                | error error =>
                    refine Or.inr (Or.inr (Or.inl
                      ⟨error, Operator.isArithmetic_of_apply happly, ?_⟩))
                    simp [Rpn.stackStep, happly]
                | ok result =>
                    refine Or.inr (Or.inl ⟨result :: values, _, ?_, rfl, .cons ?_ hbelow⟩)
                    · simp [Rpn.stackStep, happly]
                    · simp [Expr.evaluate_binary, hleft, hright, happly]
  | opening =>
      cases call <;> cases hcall
  | closing =>
      cases call <;> cases hcall
  | bottom =>
      cases call <;> cases hcall

/-- Reading any calls on corresponding stacks has one of the four outcomes. -/
theorem lockstep_attemptAll
    {values : List Value} {subtrees : List Subtree}
    (hstacks : Lockstep values subtrees)
    (calls : List Call) :
    LockstepOutcome values subtrees calls := by
  induction calls generalizing values subtrees with
  | nil =>
      exact .agreement rfl rfl hstacks
  | cons call rest ih =>
      rcases lockstep_attempt hstacks call with
        hdeep | ⟨valuesAfter, subtreesAfter, hstep, hattempt, hafter⟩ |
        ⟨error, herror, hstep⟩ | ⟨op, hcall, hstep, hshort⟩
      · refine .tooDeep ?_
        rw [Builder.attemptAll_cons, hdeep]
        rfl
      · have hrunRest :
            Rpn.stackRun values (Call.tokens (call :: rest)) =
              Rpn.stackRun valuesAfter (Call.tokens rest) := by
          rw [Call.tokens_cons, Rpn.stackRun_cons, hstep, ok_bind]
        have hbuildRest :
            ∀ later, treeBuilder.attemptAll subtrees (call :: later) =
              treeBuilder.attemptAll subtreesAfter later := by
          intro later
          rw [Builder.attemptAll_cons, hattempt, ok_bind]
        cases ih hafter with
        | tooDeep hbuild =>
            exact .tooDeep ((hbuildRest rest).trans hbuild)
        | agreement hrun hbuild hend =>
            exact .agreement (hrunRest.trans hrun) ((hbuildRest rest).trans hbuild) hend
        | arithmetic herror hrun =>
            exact .arithmetic herror (hrunRest.trans hrun)
        | @short earlier later next op left hcalls hcall hrun hbuild hleft =>
            exact .short (by rw [hcalls, List.cons_append]) hcall (hrunRest.trans hrun)
              ((hbuildRest earlier).trans hbuild) hleft
      · refine .arithmetic herror ?_
        rw [Call.tokens_cons, Rpn.stackRun_cons, hstep]
        rfl
      · refine .short (List.nil_append _).symm hcall ?_ rfl hshort
        rw [Call.tokens_cons, Rpn.stackRun_cons, hstep]
        rfl

/-- Two subtrees that are there are combined without a warning. -/
theorem level_of_combine
    {op : Operator} {left right : Subtree} {below : List Subtree} {record : Record}
    (hrecord : record ∈ (TreeBuilder.combine op left right below []).records) :
    record.level ≠ .warn := by
  unfold TreeBuilder.combine at hrecord
  by_cases hlevels : maxLevels < 1 + max left.levels right.levels
  · simp [hlevels] at hrecord
    simp [hrecord]
  · simp [hlevels] at hrecord
    simp [hrecord]

/-- Where the evaluator applies an operator, two subtrees are there. -/
theorem two_subtrees
    {values after : List Value} {subtrees : List Subtree} {op : Operator}
    (hstacks : Lockstep values subtrees)
    (hstep : Rpn.stackStep values (.operator op) = .ok after) :
    ∃ right left below, subtrees = right :: left :: below := by
  rcases Rpn.stackStep_eq_ok hstep with
    ⟨value, htoken, _⟩ | ⟨_, right, left, below, result, _, rfl, _⟩
  · cases htoken
  · have hlength := List.Forall₂.length_eq hstacks
    exact TreeBuilder.two_on_top (by simp [← hlength])

/-- The builder writes no warning for a call that the evaluator follows. -/
theorem level_of_perform
    {values after : List Value} {subtrees : List Subtree} {call : Call} {record : Record}
    (hstacks : Lockstep values subtrees)
    (hstep : Rpn.stackStep values call.token = .ok after)
    (hrecord : record ∈ (treeBuilder.perform call subtrees).records) :
    record.level ≠ .warn := by
  cases call with
  | operand value =>
      cases hrecord
  | reduce op =>
      obtain ⟨right, left, below, rfl⟩ := two_subtrees hstacks hstep
      exact level_of_combine hrecord
  | reduceTrailing op =>
      obtain ⟨right, left, below, rfl⟩ := two_subtrees hstacks hstep
      exact level_of_combine hrecord

/-- While the evaluator goes on, neither the pass nor the builder writes a
warning. -/
theorem level_of_eventsOf
    {values after : List Value} {subtrees : List Subtree} {actions : List Action}
    (hstacks : Lockstep values subtrees)
    (hrun : Rpn.stackRun values (Call.tokens (Action.calls actions)) = .ok after)
    (hnotes : ∀ record, .note record ∈ actions → record.level ≠ .warn) :
    ∀ record, .note record ∈ treeBuilder.eventsOf subtrees actions → record.level ≠ .warn := by
  induction actions generalizing values subtrees with
  | nil =>
      intro record hrecord
      cases hrecord
  | cons action rest ih =>
      intro record hrecord
      have hnotesRest : ∀ record, .note record ∈ rest → record.level ≠ .warn := by
        intro later hlater
        exact hnotes later (List.mem_cons_of_mem _ hlater)
      cases action with
      | note written =>
          rw [Builder.eventsOf] at hrecord
          rcases List.mem_cons.mp hrecord with hwritten | hlater
          · cases hwritten
            exact hnotes record (by simp)
          · exact ih hstacks hrun hnotesRest record hlater
      | call made =>
          rw [Action.calls_cons_call, Call.tokens_cons, Rpn.stackRun_cons] at hrun
          obtain ⟨between, hstep, hrest⟩ := bind_eq_ok.mp hrun
          rw [Builder.eventsOf] at hrecord
          rcases List.mem_append.mp hrecord with hreply | hlater
          · have hmember : record ∈ (treeBuilder.perform made subtrees).records := by
              simpa using hreply
            exact level_of_perform hstacks hstep hmember
          · rcases lockstep_attempt hstacks made with
              hdeep | ⟨valuesAfter, subtreesAfter, hvalues, hattempt, hafter⟩ |
              ⟨error, _, hfailed⟩ | ⟨op, _, hfailed, _⟩
            · rw [hdeep] at hlater
              cases hlater
            · rw [hstep] at hvalues
              cases hvalues
              rw [hattempt] at hlater
              exact ih hafter hrest hnotesRest record hlater
            · rw [hstep] at hfailed
              cases hfailed
            · rw [hstep] at hfailed
              cases hfailed

end Parse
end InfixCalc
