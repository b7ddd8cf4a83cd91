import InfixCalc.Parse
import InfixCalc.Proofs.Conservation

/-!
# The stack of the tree builder as a forest

The sequence builder collects the tokens of the calls.  The subtrees of the
tree builder, written one after another in reverse Polish order from the bottom
of its stack to the top, give the same tokens, but for the zeros that stand in
for missing operands: those come first.

A reduction after the last token is a reduction on a stack to which the missing
zeros have been added, so there is one kind of reduction to look at.

* `TreeBuilder.forest_of_attemptAll` : the forest and the number of subtrees
  after any calls that are not refused.
* `Expr.toRpn_of_ofInfix` : how the tree of a token list is related to its
  sequence in reverse Polish order.
-/

namespace InfixCalc
namespace Parse

theorem attempt_rpnBuilder
    (collected : Rpn) (call : Call) :
    rpnBuilder.attempt collected call = .ok (call.token :: collected) := by
  cases call <;> rfl

/-- The sequence builder refuses nothing and collects every token. -/
theorem attemptAll_rpnBuilder
    (collected : Rpn) (calls : List Call) :
    rpnBuilder.attemptAll collected calls =
      .ok ((Call.tokens calls).reverse ++ collected) := by
  induction calls generalizing collected with
  | nil =>
      rfl
  | cons call rest ih =>
      rw [Builder.attemptAll_cons, attempt_rpnBuilder, ok_bind, ih]
      simp

/-- The sequence of a token list is decided by its parentheses and consists of
the tokens of the calls. -/
theorem ofInfix_eq_tokens
    (tokens : List Token) :
    Rpn.ofInfix tokens =
      match bracketError? 0 tokens with
      | some error => .error error
      | none => .ok (Call.tokens (Pending.start.calls tokens)) := by
  rw [Rpn.ofInfix, rpnRun, run_result, attemptAll_rpnBuilder, ok_bind]
  cases bracketError? 0 tokens with
  | some error =>
      rfl
  | none =>
      simp [rpnBuilder]

theorem ofInfix_eq_ok
    {tokens : List Token} {rpn : Rpn} :
    Rpn.ofInfix tokens = .ok rpn ↔
      bracketError? 0 tokens = none ∧ rpn = Call.tokens (Pending.start.calls tokens) := by
  rw [ofInfix_eq_tokens]
  cases bracketError? 0 tokens with
  | some error =>
      simp
  | none =>
      simp [eq_comm]

theorem initial_treeBuilder :
    treeBuilder.initial = [] := by
  rfl

namespace TreeBuilder

/-- The subtrees in reverse Polish order, from the bottom of the stack. -/
def forest (subtrees : List Subtree) : Rpn :=
  (subtrees.reverse.map fun subtree => subtree.tree.toRpn).flatten

@[simp] theorem forest_nil :
    forest [] = [] := by
  rfl

@[simp] theorem forest_cons
    (top : Subtree) (below : List Subtree) :
    forest (top :: below) = forest below ++ top.tree.toRpn := by
  simp [forest]

/-- Zeros in the places of `count` missing operands. -/
def zeros (count : Nat) : List Subtree :=
  List.replicate count (.leaf 0)

/-- The number of operands that a call misses and takes to be zero. -/
def padding : Call → List Subtree → Nat
  | .reduceTrailing _, subtrees => 2 - subtrees.length
  | _, _ => 0

/-- Zeros below a stack come first in the forest. -/
theorem forest_append_zeros
    (subtrees : List Subtree) (count : Nat) :
    forest (subtrees ++ zeros count) =
      List.replicate count (.number 0) ++ forest subtrees := by
  have hzeros : forest (zeros count) = List.replicate count (.number 0) := by
    simp [forest, zeros, Subtree.leaf, Expr.toRpn, List.flatten_replicate_singleton]
  rw [← hzeros]
  simp [forest]

theorem two_on_top
    {subtrees : List Subtree}
    (henough : 2 ≤ subtrees.length) :
    ∃ right left below, subtrees = right :: left :: below := by
  match subtrees, henough with
  | right :: left :: below, _ =>
      exact ⟨right, left, below, rfl⟩

/-- What becomes of the two subtrees on top. -/
theorem outcome_combine
    (op : Operator) (left right : Subtree) (below : List Subtree) (earlier : List Record) :
    (combine op left right below earlier).outcome =
      if maxLevels < 1 + max left.levels right.levels then
        .error (.treeTooDeep maxLevels)
      else
        .ok (⟨.binary op left.tree right.tree, 1 + max left.levels right.levels⟩ :: below) := by
  unfold combine Reply.outcome
  by_cases hlevels : maxLevels < 1 + max left.levels right.levels
  · simp [hlevels]
  · simp [hlevels]

theorem attempt_reduce
    (op : Operator) (right left : Subtree) (below : List Subtree) :
    treeBuilder.attempt (right :: left :: below) (.reduce op) =
      if maxLevels < 1 + max left.levels right.levels then
        .error (.treeTooDeep maxLevels)
      else
        .ok (⟨.binary op left.tree right.tree, 1 + max left.levels right.levels⟩ :: below) := by
  exact outcome_combine op left right below []

theorem attempt_reduce_of_short
    {op : Operator} {subtrees : List Subtree}
    (hshort : subtrees.length < 2) :
    treeBuilder.attempt subtrees (.reduce op) = .error (.missingOperand op) := by
  match subtrees, hshort with
  | [], _ =>
      rfl
  | [_], _ =>
      rfl

/-- A reduction after the last token first adds the zeros that are missing. -/
theorem attempt_reduceTrailing
    (op : Operator) (subtrees : List Subtree) :
    treeBuilder.attempt subtrees (.reduceTrailing op) =
      treeBuilder.attempt (subtrees ++ zeros (2 - subtrees.length)) (.reduce op) := by
  match subtrees with
  | [] =>
      rfl
  | [right] =>
      change (combine op (.leaf 0) right [] [paddingRecord op]).outcome =
        treeBuilder.attempt [right, .leaf 0] (.reduce op)
      rw [outcome_combine, attempt_reduce]
  | right :: left :: below =>
      simp [zeros]
      rfl

/-- With two subtrees on the stack both kinds of reduction are the same. -/
theorem attempt_of_token
    {call : Call} {op : Operator}
    (hcall : call.token = .operator op)
    (right left : Subtree) (below : List Subtree) :
    treeBuilder.attempt (right :: left :: below) call =
      if maxLevels < 1 + max left.levels right.levels then
        .error (.treeTooDeep maxLevels)
      else
        .ok (⟨.binary op left.tree right.tree, 1 + max left.levels right.levels⟩ :: below) := by
  cases call with
  | operand value =>
      cases hcall
  | reduce op =>
      cases hcall
      exact attempt_reduce op right left below
  | reduceTrailing op =>
      cases hcall
      exact outcome_combine op left right below []

/-- A call is refused for too many levels, or because it is a reduction of
fewer than two subtrees while tokens are being read. -/
theorem attempt_eq_error
    {call : Call} {subtrees : List Subtree} {error : ParseError}
    (herror : treeBuilder.attempt subtrees call = .error error) :
    error = .treeTooDeep maxLevels ∨
      ∃ op, call = .reduce op ∧ error = .missingOperand op ∧ subtrees.length < 2 := by
  cases call with
  | operand value =>
      cases herror
  | reduce op =>
      by_cases hshort : subtrees.length < 2
      · rw [attempt_reduce_of_short hshort] at herror
        cases herror
        exact Or.inr ⟨op, rfl, rfl, hshort⟩
      · obtain ⟨right, left, below, rfl⟩ := two_on_top (Nat.not_lt.mp hshort)
        rw [attempt_reduce] at herror
        split at herror
        next hlevels =>
            cases herror
            exact Or.inl rfl
        next hlevels =>
            cases herror
  | reduceTrailing op =>
      have henough : 2 ≤ (subtrees ++ zeros (2 - subtrees.length)).length := by
        rw [List.length_append, zeros, List.length_replicate]
        omega
      obtain ⟨right, left, below, htop⟩ := two_on_top henough
      rw [attempt_reduceTrailing, htop, attempt_reduce] at herror
      split at herror
      next hlevels =>
          cases herror
          exact Or.inl rfl
      next hlevels =>
          cases herror

/-- Calls are refused for too many levels, or at the first reduction that is
short of subtrees while tokens are being read. -/
theorem attemptAll_eq_error
    {calls : List Call} {before : List Subtree} {error : ParseError}
    (herror : treeBuilder.attemptAll before calls = .error error) :
    error = .treeTooDeep maxLevels ∨
      ∃ op, .reduce op ∈ calls ∧ error = .missingOperand op := by
  induction calls generalizing before with
  | nil =>
      cases herror
  | cons call rest ih =>
      rw [Builder.attemptAll_cons] at herror
      cases hcall : treeBuilder.attempt before call with
      | error refusal =>
          rw [hcall] at herror
          cases herror
          rcases attempt_eq_error hcall with hdeep | ⟨op, rfl, hmissing, _⟩
          · exact Or.inl hdeep
          · exact Or.inr ⟨op, by simp, hmissing⟩
      | ok after =>
          rw [hcall] at herror
          rcases ih herror with hdeep | ⟨op, hmem, hmissing⟩
          · exact Or.inl hdeep
          · exact Or.inr ⟨op, List.mem_cons_of_mem _ hmem, hmissing⟩

/-- A reduction writes its operator behind the forest. -/
theorem forest_of_reduce
    {op : Operator} {before after : List Subtree}
    (hok : treeBuilder.attempt before (.reduce op) = .ok after) :
    forest after = forest before ++ [.operator op] ∧
      after.length + 1 = before.length := by
  match before with
  | [] =>
      cases hok
  | [_] =>
      cases hok
  | right :: left :: below =>
      rw [attempt_reduce] at hok
      split at hok
      next hlevels =>
          cases hok
      next hlevels =>
          cases hok
          simp [Expr.toRpn]

/-- A call that is not refused writes its token behind the forest and the zeros
before it. -/
theorem forest_of_attempt
    {call : Call} {before after : List Subtree}
    (hok : treeBuilder.attempt before call = .ok after) :
    forest after =
        List.replicate (padding call before) (.number 0) ++ forest before ++ [call.token] ∧
      after.length + (Token.operators [call.token]).length =
        before.length + (Token.values [call.token]).length + padding call before := by
  cases call with
  | operand value =>
      rw [Builder.attempt_operand] at hok
      cases hok
      simp [treeBuilder, padding, Subtree.leaf, Expr.toRpn]
  | reduce op =>
      obtain ⟨hforest, hlength⟩ := forest_of_reduce hok
      simp [padding, hforest, hlength]
  | reduceTrailing op =>
      rw [attempt_reduceTrailing] at hok
      obtain ⟨hforest, hlength⟩ := forest_of_reduce hok
      rw [forest_append_zeros] at hforest
      simp only [zeros, List.length_append, List.length_replicate] at hlength
      simp [padding, hforest, hlength]

/-- The forest after calls that are not refused: some zeros, the forest before
them, and the tokens of the calls.  Calls while tokens are being read need no
zeros. -/
theorem forest_of_attemptAll
    {calls : List Call} {before after : List Subtree}
    (hok : treeBuilder.attemptAll before calls = .ok after) :
    ∃ count,
      forest after =
        List.replicate count (.number 0) ++ forest before ++ Call.tokens calls ∧
      after.length + (Token.operators (Call.tokens calls)).length =
        before.length + (Token.values (Call.tokens calls)).length + count ∧
      ((∀ call ∈ calls, call.inStream) → count = 0) := by
  induction calls generalizing before with
  | nil =>
      cases hok
      exact ⟨0, by simp, by simp, fun _ => rfl⟩
  | cons call rest ih =>
      rw [Builder.attemptAll_cons] at hok
      obtain ⟨next, hcall, hrest⟩ := bind_eq_ok.mp hok
      obtain ⟨hforest, hlength⟩ := forest_of_attempt hcall
      obtain ⟨count, hforestRest, hlengthRest, hcount⟩ := ih hrest
      refine ⟨count + padding call before, ?_, ?_, ?_⟩
      · simp [hforestRest, hforest, ← List.replicate_append_replicate]
      · have htokens : Call.tokens (call :: rest) = [call.token] ++ Call.tokens rest := by
          rfl
        rw [htokens, Token.operators_append, Token.values_append, List.length_append,
          List.length_append]
        omega
      · intro hstream
        have hzero : padding call before = 0 := by
          have hcall : call.inStream := hstream call (by simp)
          cases call with
          | operand value =>
              rfl
          | reduce op =>
              rfl
          | reduceTrailing op =>
              cases hcall
        rw [hzero, hcount fun later hlater => hstream later (by simp [hlater])]

/-- Reductions after the last token leave a single subtree as soon as they run
short of operands. -/
theorem length_of_trailing
    {left : List Operator} {before after : List Subtree}
    (hok : treeBuilder.attemptAll before (Pending.trailingReductions left) = .ok after)
    (hleft : left ≠ []) :
    after.length = max 1 (before.length - left.length) := by
  induction left generalizing before with
  | nil =>
      exact absurd rfl hleft
  | cons op rest ih =>
      change treeBuilder.attemptAll before
        (.reduceTrailing op :: Pending.trailingReductions rest) = .ok after at hok
      rw [Builder.attemptAll_cons] at hok
      obtain ⟨next, hcall, hrest⟩ := bind_eq_ok.mp hok
      have hnext := (forest_of_attempt hcall).2
      simp [padding] at hnext
      by_cases hempty : rest = []
      · subst hempty
        cases hrest
        simp
        omega
      · rw [ih hrest hempty]
        simp
        omega

/-- Calls that spell a tree in reverse Polish order put it onto the stack, if
it has not too many levels, be they made before or after the last token. -/
theorem attemptAll_of_toRpn
    (tree : Expr) {calls : List Call} (below : List Subtree)
    (htokens : Call.tokens calls = tree.toRpn) :
    treeBuilder.attemptAll below calls =
      if tree.levels ≤ maxLevels then
        .ok (⟨tree, tree.levels⟩ :: below)
      else
        .error (.treeTooDeep maxLevels) := by
  induction tree generalizing calls below with
  | number value =>
      obtain ⟨call, rfl, hcall⟩ := List.map_eq_singleton_iff.mp htokens
      obtain rfl : call = .operand value := by
        cases call <;> simp_all
      rfl
  | binary op left right ihLeft ihRight =>
      obtain ⟨both, last, rfl, hboth, hlast⟩ := List.map_eq_append_iff.mp htokens
      obtain ⟨callsLeft, callsRight, rfl, hleft, hright⟩ := List.map_eq_append_iff.mp hboth
      obtain ⟨call, rfl, hcall⟩ := List.map_eq_singleton_iff.mp hlast
      rw [Builder.attemptAll_append, Builder.attemptAll_append, ihLeft below hleft]
      by_cases hlevelsLeft : left.levels ≤ maxLevels
      · rw [if_pos hlevelsLeft, ok_bind, ihRight _ hright]
        by_cases hlevelsRight : right.levels ≤ maxLevels
        · rw [if_pos hlevelsRight, ok_bind, Builder.attemptAll_cons,
            attempt_of_token hcall, Expr.levels]
          by_cases hlevels : 1 + max left.levels right.levels ≤ maxLevels
          · rw [if_pos hlevels, if_neg (Nat.not_lt.mpr hlevels)]
            rfl
          · rw [if_neg hlevels, if_pos (Nat.not_le.mp hlevels)]
            rfl
        · have hlevels : ¬ (Expr.binary op left right).levels ≤ maxLevels := by
            rw [Expr.levels]
            omega
          rw [if_neg hlevelsRight, if_neg hlevels]
          rfl
      · have hlevels : ¬ (Expr.binary op left right).levels ≤ maxLevels := by
          rw [Expr.levels]
          omega
        rw [if_neg hlevelsLeft, if_neg hlevels]
        rfl

/-- The calls of a pass leave a single subtree if any zeros were added. -/
theorem forest_of_pass
    {pending : Pending} {tokens : List Token} {after : List Subtree}
    (hcompletes : pending.Completes tokens)
    (hok : treeBuilder.attemptAll [] (pending.calls tokens) = .ok after) :
    ∃ count,
      forest after =
        List.replicate count (.number 0) ++ Call.tokens (pending.calls tokens) ∧
      after.length + (Token.operators (Call.tokens (pending.calls tokens))).length =
        (Token.values (Call.tokens (pending.calls tokens))).length + count ∧
      (count = 0 ∨ after.length = 1) := by
  obtain ⟨early, left, hcalls, hearly⟩ := Pending.calls_eq_append hcompletes
  obtain ⟨count, hforest, hlength, _⟩ := forest_of_attemptAll hok
  refine ⟨count, by simpa using hforest, by simpa using hlength, ?_⟩
  rw [hcalls, Builder.attemptAll_append] at hok
  obtain ⟨between, hfirst, hlast⟩ := bind_eq_ok.mp hok
  obtain ⟨none, _, hbetween, hnone⟩ := forest_of_attemptAll hfirst
  have hzero := hnone hearly
  by_cases hempty : left = []
  · subst hempty
    cases hlast
    simp [hcalls] at hlength
    simp at hbetween
    omega
  · have hafter := length_of_trailing hlast hempty
    simp [hcalls] at hlength
    simp at hbetween
    omega

end TreeBuilder

/-- The tree of a token list is on top of the stack that the calls leave. -/
theorem ofInfix_eq_attemptAll
    (tokens : List Token) :
    Expr.ofInfix tokens =
      treeBuilder.attemptAll [] (Pending.start.calls tokens) >>= fun subtrees =>
        match bracketError? 0 tokens with
        | some error => .error error
        | none => (TreeBuilder.finish subtrees).result := by
  exact run_result treeBuilder tokens

theorem finish_cons
    (top : Subtree) (below : List Subtree) :
    (TreeBuilder.finish (top :: below)).result = .ok top.tree := by
  cases below <;> rfl

/-- If the parentheses are in order and the calls spell a tree, then both results
are that tree, but a tree with too many levels is not built. -/
theorem ofInfix_of_toRpn
    {tokens : List Token} {tree : Expr}
    (hscan : bracketError? 0 tokens = none)
    (htokens : Call.tokens (Pending.start.calls tokens) = tree.toRpn) :
    Rpn.ofInfix tokens = .ok tree.toRpn ∧
      Expr.ofInfix tokens =
        if tree.levels ≤ maxLevels then
          .ok tree
        else
          .error (.treeTooDeep maxLevels) := by
  constructor
  · exact ofInfix_eq_ok.mpr ⟨hscan, htokens.symm⟩
  · rw [ofInfix_eq_attemptAll, TreeBuilder.attemptAll_of_toRpn tree [] htokens, hscan]
    by_cases hlevels : tree.levels ≤ maxLevels
    · rw [if_pos hlevels, if_pos hlevels]
      rfl
    · rw [if_neg hlevels, if_neg hlevels]
      rfl

/-- A token list with a tree has parentheses in order, and its tree is on top
of the stack after the calls of the pass. -/
theorem attemptAll_of_ofInfix
    {tokens : List Token} {tree : Expr}
    (htree : Expr.ofInfix tokens = .ok tree) :
    bracketError? 0 tokens = none ∧
      ∃ top below,
        treeBuilder.attemptAll [] (Pending.start.calls tokens) = .ok (top :: below) ∧
        top.tree = tree := by
  rw [ofInfix_eq_attemptAll] at htree
  obtain ⟨subtrees, hcalls, hfinish⟩ := bind_eq_ok.mp htree
  cases hscan : bracketError? 0 tokens with
  | some error =>
      rw [hscan] at hfinish
      cases hfinish
  | none =>
      rw [hscan] at hfinish
      cases subtrees with
      | nil =>
          cases hfinish
      | cons top below =>
          rw [finish_cons] at hfinish
          cases hfinish
          exact ⟨rfl, top, below, hcalls, rfl⟩

end Parse

namespace Expr

open Parse

/-- The trees that a pass leaves, the tree of the token list last, spell the
sequence behind the zeros that were added; with zeros there is no other tree. -/
theorem trees_of_ofInfix
    {tokens : List Token} {tree : Expr}
    (htree : Expr.ofInfix tokens = .ok tree) :
    ∃ rpn count, ∃ discarded : List Expr,
      Rpn.ofInfix tokens = .ok rpn ∧
      ((discarded ++ [tree]).map toRpn).flatten =
        List.replicate count (.number 0) ++ rpn ∧
      discarded.length + 1 + (Token.operators tokens).length =
        (Token.values tokens).length + count ∧
      (count = 0 ∨ discarded = []) := by
  obtain ⟨hscan, top, below, hcalls, rfl⟩ := attemptAll_of_ofInfix htree
  have hcompletes : Pending.start.Completes tokens := Pending.completes_of_scan hscan
  obtain ⟨count, hforest, hlength, hcount⟩ := TreeBuilder.forest_of_pass hcompletes hcalls
  have hoperators := (Pending.operators_calls hcompletes).length_eq
  rw [Pending.waiting_start, List.nil_append] at hoperators
  rw [Pending.values_calls hcompletes, hoperators] at hlength
  refine ⟨Call.tokens (Pending.start.calls tokens), count,
    (below.map Subtree.tree).reverse, ?_, ?_, ?_, ?_⟩
  · rw [ofInfix_eq_tokens, hscan]
  · simpa [TreeBuilder.forest, Function.comp_def] using hforest
  · simpa using hlength
  · simpa using hcount

variable {tokens : List Token} {tree : Expr} {rpn : Rpn}

/-- Without surplus operands the tree is the sequence behind the zeros that are
missing. -/
theorem toRpn_of_few
    (htree : Expr.ofInfix tokens = .ok tree)
    (hrpn : Rpn.ofInfix tokens = .ok rpn)
    (hfew : (Token.values tokens).length ≤ (Token.operators tokens).length + 1) :
    tree.toRpn =
      List.replicate ((Token.operators tokens).length + 1 - (Token.values tokens).length)
        (.number 0) ++ rpn := by
  obtain ⟨spelled, count, discarded, hspelled, htrees, hlength, hcount⟩ := trees_of_ofInfix htree
  cases hrpn.symm.trans hspelled
  have hnone : discarded = [] := by
    rcases hcount with hzero | hnone
    · exact List.length_eq_zero_iff.mp (by omega)
    · exact hnone
  have hmissing :
      count = (Token.operators tokens).length + 1 - (Token.values tokens).length := by
    rw [hnone, List.length_nil] at hlength
    omega
  rw [hnone] at htrees
  simpa [hmissing] using htrees

/-- With more operands than operators no zeros are added, and the sequence
spells as many trees as there are operands more. -/
theorem trees_of_many
    (htree : Expr.ofInfix tokens = .ok tree)
    (hrpn : Rpn.ofInfix tokens = .ok rpn)
    (hmany : (Token.operators tokens).length < (Token.values tokens).length) :
    ∃ trees : List Expr,
      trees.length = (Token.values tokens).length - (Token.operators tokens).length ∧
      trees.getLast? = some tree ∧
      rpn = (trees.map toRpn).flatten := by
  obtain ⟨spelled, count, discarded, hspelled, htrees, hlength, hcount⟩ := trees_of_ofInfix htree
  cases hrpn.symm.trans hspelled
  have hzero : count = 0 := by
    rcases hcount with hzero | hnone
    · exact hzero
    · rw [hnone, List.length_nil] at hlength
      omega
  refine ⟨discarded ++ [tree], ?_, by simp, ?_⟩
  · rw [List.length_append, List.length_singleton]
    omega
  · rw [hzero] at htrees
    simpa using htrees.symm

/-- A token list with a tree also has a sequence.  With too few operands the
tree is the sequence behind the zeros that are missing; with too many the
sequence spells several trees, and the tree is the last of them. -/
theorem toRpn_of_ofInfix
    (tokens : List Token) (tree : Expr)
    (htree : Expr.ofInfix tokens = .ok tree) :
    ∃ rpn,
      Rpn.ofInfix tokens = .ok rpn ∧
      ((Token.values tokens).length ≤ (Token.operators tokens).length + 1 →
        tree.toRpn =
          List.replicate ((Token.operators tokens).length + 1 - (Token.values tokens).length)
            (.number 0) ++ rpn) ∧
      ((Token.operators tokens).length + 1 < (Token.values tokens).length →
        ∃ trees : List Expr,
          trees.length = (Token.values tokens).length - (Token.operators tokens).length ∧
          trees.getLast? = some tree ∧
          rpn = (trees.map toRpn).flatten) := by
  obtain ⟨rpn, _, _, hrpn, _⟩ := trees_of_ofInfix htree
  refine ⟨rpn, hrpn, ?_, ?_⟩
  · intro hfew
    exact toRpn_of_few htree hrpn hfew
  · intro hmany
    exact trees_of_many htree hrpn (Nat.lt_of_succ_lt hmany)

/-- The surplus operand of `1 2 + 3` is a tree of its own, below the root. -/
theorem toRpn_of_ofInfix_surplus :
    ∃ rpn,
      Rpn.ofInfix [.number 1, .number 2, .operator .plus, .number 3] = .ok rpn ∧
      ∃ trees : List Expr,
        trees.length = 2 ∧
        trees.getLast? = some (.binary .plus (.number 2) (.number 3)) ∧
        rpn = (trees.map toRpn).flatten := by
  have htree :
      Expr.ofInfix [.number 1, .number 2, .operator .plus, .number 3] =
        .ok (.binary .plus (.number 2) (.number 3)) := by
    rfl
  obtain ⟨rpn, hrpn, _, hmany⟩ := toRpn_of_ofInfix _ _ htree
  exact ⟨rpn, hrpn, hmany (by decide)⟩

end Expr
end InfixCalc
