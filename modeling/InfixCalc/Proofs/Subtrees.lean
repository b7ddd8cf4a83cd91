import InfixCalc.Proofs.Padding

/-!
# What the tree builder keeps on its stack

The tree builder may be driven by any calls, also past refusals, which leave less on its
stack.  The number of levels that it keeps with a subtree is right at all times, and
never above the limit.  As long as no call is refused, its subtrees spell what the
sequence builder collects from the same calls, behind a zero for each operand that was
missing.

* `TreeBuilder.Measured` : a subtree with the right number of levels.
* `TreeBuilder.measured_perform` : what one call does, and
  `TreeBuilder.measured_stateAfter` : what any calls do.
* `TreeBuilder.subtrees_faithful` : both facts about the stack.
-/

namespace InfixCalc
namespace Parse
namespace TreeBuilder

/-- The number of levels that is kept with a subtree is right and within the limit. -/
def Measured (subtree : Subtree) : Prop :=
  subtree.levels = subtree.tree.levels ∧ subtree.levels ≤ 2048

theorem measured_leaf
    (value : Value) :
    Measured (.leaf value) := by
  exact ⟨rfl, Nat.le_add_left 1 2047⟩

/-- What is left when two measured subtrees are combined or refused. -/
theorem measured_combine
    {op : Operator} {left right : Subtree} {below : List Subtree} {earlier : List Record}
    (hleft : Measured left) (hright : Measured right)
    (hbelow : ∀ subtree ∈ below, Measured subtree) :
    ∀ subtree ∈ (combine op left right below earlier).state, Measured subtree := by
  unfold combine
  by_cases hlevels : maxLevels < 1 + max left.levels right.levels
  · simp only [hlevels, if_true]
    exact hbelow
  · simp only [hlevels, if_false]
    refine List.forall_mem_cons.mpr ⟨⟨?_, Nat.not_lt.mp hlevels⟩, hbelow⟩
    rw [Expr.levels, ← hleft.1, ← hright.1]

/-- A call, refused or not, leaves measured subtrees on the stack. -/
theorem measured_perform
    {subtrees : List Subtree}
    (hmeasured : ∀ subtree ∈ subtrees, Measured subtree)
    (call : Call) :
    ∀ subtree ∈ (treeBuilder.perform call subtrees).state, Measured subtree := by
  cases call with
  | operand value =>
      exact List.forall_mem_cons.mpr ⟨measured_leaf value, hmeasured⟩
  | reduce op =>
      match subtrees with
      | [] =>
          exact List.forall_mem_nil _
      | [_] =>
          exact List.forall_mem_nil _
      | right :: left :: below =>
          obtain ⟨hright, hrest⟩ := List.forall_mem_cons.mp hmeasured
          obtain ⟨hleft, hbelow⟩ := List.forall_mem_cons.mp hrest
          exact measured_combine hleft hright hbelow
  | reduceTrailing op =>
      match subtrees with
      | [] =>
          exact measured_combine (measured_leaf 0) (measured_leaf 0) (List.forall_mem_nil _)
      | [right] =>
          obtain ⟨hright, hbelow⟩ := List.forall_mem_cons.mp hmeasured
          exact measured_combine (measured_leaf 0) hright hbelow
      | right :: left :: below =>
          obtain ⟨hright, hrest⟩ := List.forall_mem_cons.mp hmeasured
          obtain ⟨hleft, hbelow⟩ := List.forall_mem_cons.mp hrest
          exact measured_combine hleft hright hbelow

/-- So do any calls, made one after another past all refusals. -/
theorem measured_stateAfter
    {subtrees : List Subtree}
    (hmeasured : ∀ subtree ∈ subtrees, Measured subtree)
    (calls : List Call) :
    ∀ subtree ∈ treeBuilder.stateAfter subtrees calls, Measured subtree := by
  induction calls generalizing subtrees with
  | nil =>
      exact hmeasured
  | cons call rest ih =>
      exact ih (measured_perform hmeasured call)

/-- After any calls on a fresh tree builder, refused or not, every subtree on its stack
has the number of levels that is kept with it, and at most 2048.  If no call is refused,
the subtrees spell, from the bottom of the stack to its top, what the sequence builder
collects from the same calls, behind one zero for each operand that was missing. -/
theorem subtrees_faithful
    (calls : List Call) :
    (∀ subtree ∈ treeBuilder.stateAfter treeBuilder.initial calls,
      subtree.levels = subtree.tree.levels ∧ subtree.levels ≤ 2048) ∧
    ((∀ reply ∈ treeBuilder.replies treeBuilder.initial calls, reply.failure? = none) →
      ∃ rpn,
        rpnBuilder.driven calls = .ok ⟨.ok rpn, []⟩ ∧
        forest (treeBuilder.stateAfter treeBuilder.initial calls) =
          List.replicate (zerosIn (treeBuilder.recordsOf treeBuilder.initial calls))
            (.number 0) ++ rpn) := by
  constructor
  · have hfresh : ∀ subtree ∈ treeBuilder.initial, Measured subtree :=
      List.forall_mem_nil _
    exact measured_stateAfter hfresh calls
  · intro haccepted
    have hall := Builder.attemptAll_of_accepted haccepted
    refine ⟨Call.tokens calls, ?_, ?_⟩
    · rw [Builder.driven_eq_attemptAll, attemptAll_rpnBuilder]
      simp [rpnBuilder, Except.map]
    · have hforest := forest_of_replies hall
      simpa [initial_treeBuilder] using hforest

/-- Zeros may be added before later operands come: after the two trailing sums of `4` and
the product of `7` and `8`, the subtrees are `(0 + (0 + 4))` and `(7 * 8)`. -/
theorem subtrees_faithful_early_zeros :
    ∃ rpn,
      rpnBuilder.driven
          [.operand 4, .reduceTrailing .plus, .reduceTrailing .plus, .operand 7, .operand 8,
            .reduce .times] =
        .ok ⟨.ok rpn, []⟩ ∧
      forest
          [⟨.binary .times (.number 7) (.number 8), 2⟩,
            ⟨.binary .plus (.number 0) (.binary .plus (.number 0) (.number 4)), 3⟩] =
        List.replicate 2 (.number 0) ++ rpn := by
  have hfaithful := (subtrees_faithful
    [.operand 4, .reduceTrailing .plus, .reduceTrailing .plus, .operand 7, .operand 8,
      .reduce .times]).2
  exact hfaithful (by decide)

end TreeBuilder
end Parse
end InfixCalc
