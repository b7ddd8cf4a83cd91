import InfixCalc.Proofs.Agreement

/-!
# The failures of a line

The tree is refused while it is being built, and the sequence fails when it is
evaluated, but they fail together: an operator that is short of operands is the
same one on both ways, and so is an error of the arithmetic.  Only operators
that are reduced after the last token may lack operands in the tree.

* `Parse.error_of_short` : the builder at an operator that is short of values.
* `LineReport.FailuresCorrespond` : what a failure on one way says about the
  other.
* `LineReport.failures_correspond` : the failures of every line correspond.
-/

namespace InfixCalc
namespace Parse

/-- At a reduction that is short of subtrees the builder stops with its
operator, or goes on after the last token, where only the levels of the tree
can stop it. -/
theorem error_of_short
    {tokens : List Token} {earlier later : List Call} {call : Call} {op : Operator}
    {left : List Subtree}
    (hscan : bracketError? 0 tokens = none)
    (hcalls : Pending.start.calls tokens = earlier ++ call :: later)
    (hcall : call.token = .operator op)
    (hbuild : treeBuilder.attemptAll [] earlier = .ok left)
    (hleft : left.length < 2) :
    treeBuilder.attemptAll [] (Pending.start.calls tokens) = .error (.missingOperand op) ∨
      ∀ error, treeBuilder.attemptAll [] (Pending.start.calls tokens) = .error error →
        error = .treeTooDeep maxLevels := by
  have hcompletes : Pending.start.Completes tokens := Pending.completes_of_scan hscan
  have hpairwise := Pending.pairwise_calls hcompletes
  rw [hcalls] at hpairwise ⊢
  rw [Builder.attemptAll_append, hbuild, ok_bind]
  cases call with
  | operand value =>
      cases hcall
  | reduce found =>
      cases hcall
      refine Or.inl ?_
      rw [Builder.attemptAll_cons, TreeBuilder.attempt_reduce_of_short hleft]
      rfl
  | reduceTrailing found =>
      refine Or.inr fun error herror => ?_
      rcases TreeBuilder.attemptAll_eq_error herror with hdeep | ⟨reduced, hmem, _⟩
      · exact hdeep
      · -- a reduction in the stream cannot follow one after the last token
        have hlater : .reduce reduced ∈ later := by
          simpa using hmem
        have hafter := (List.pairwise_cons.mp (List.pairwise_append.mp hpairwise).2.1).1
        have hstream := hafter (.reduce reduced) hlater rfl
        cases hstream

end Parse

namespace LineReport

open Parse

/-- What a failure on one way says about the other, for a line with the
sequence `rpn`. -/
structure FailuresCorrespond (report : LineReport) (rpn : Rpn) : Prop where
  /-- No value is left just when the line has neither operands nor operators. -/
  nothing_left :
    report.rpnValue = .error (.eval (.malformedExpression 0)) ↔
      (Token.values report.tokens).length = 0 ∧ (Token.operators report.tokens).length = 0
  /-- There is nothing to build just when the line has neither operands nor
  operators. -/
  nothing_built :
    (Token.values report.tokens).length = 0 ∧ (Token.operators report.tokens).length = 0 ↔
      report.tree = .error .emptyExpression
  /-- When several values are left, the tree has the one on top. -/
  several_left (found : Nat) :
    2 ≤ found →
    report.rpnValue = .error (.eval (.malformedExpression found)) →
    found = (Token.values report.tokens).length - (Token.operators report.tokens).length ∧
      ∃ top below applications,
        rpn.foldlM Rpn.evalStep [] [] = .ok (top :: below) applications ∧
        (report.treeValue = .ok top ∨
          report.treeValue = .error (.parse (.treeTooDeep maxLevels)))
  /-- An operator short of values is short of subtrees, or has zeros. -/
  short_of_values (op : Operator) :
    report.rpnValue = .error (.eval (.insufficientOperands op)) →
    report.tree = .error (.missingOperand op) ∨
      report.tree = .error (.treeTooDeep maxLevels) ∨
      (∃ tree, report.tree = .ok tree) ∧
        (Token.values report.tokens).length ≤ (Token.operators report.tokens).length
  /-- An operator short of subtrees is short of values, if the arithmetic gets
  that far. -/
  short_of_subtrees (op : Operator) :
    report.tree = .error (.missingOperand op) →
    report.rpnValue = .error (.eval (.insufficientOperands op)) ∨
      ∃ error : EvalError,
        error.IsArithmetic ∧ report.rpnValue = .error (.eval error)
  /-- Without surplus operands both ways have the same error of the
  arithmetic. -/
  arithmetic (error : EvalError) (tree : Expr) :
    error.IsArithmetic →
    report.rpnValue = .error (.eval error) →
    (Token.values report.tokens).length ≤ (Token.operators report.tokens).length + 1 →
    report.tree = .ok tree →
    report.treeValue = .error (.eval error)

variable {tokens : List Token}

theorem spelling_eq_nil
    (hscan : bracketError? 0 tokens = none) :
    spelling tokens = [] ↔
      (Token.values tokens).length = 0 ∧ (Token.operators tokens).length = 0 := by
  obtain ⟨hvalues, hoperators⟩ := length_of_spelling hscan
  have hlength := Call.length_tokens (Pending.start.calls tokens)
  change (spelling tokens).length =
    (Token.values (spelling tokens)).length + (Token.operators (spelling tokens)).length at hlength
  rw [hvalues, hoperators] at hlength
  rw [← List.length_eq_zero_iff, hlength, Nat.add_eq_zero_iff]

/-- The sequence leaves nothing just when it is empty. -/
theorem rpnValue_eq_malformed_zero
    (hscan : bracketError? 0 tokens = none) :
    (LineReport.ofTokens tokens).rpnValue = .error (.eval (.malformedExpression 0)) ↔
      spelling tokens = [] := by
  constructor
  · intro herror
    rcases run_of_rpnValue_error hscan herror with hfailed | ⟨values, hrun, hfound, _⟩
    · exact absurd hfailed (Rpn.stackRun_ne_malformed [] _ 0)
    · obtain rfl : values = [] := by
        injection hfound with hlength
        exact List.length_eq_zero_iff.mp hlength.symm
      exact Rpn.eq_nil_of_stackRun hrun
  · intro hnil
    rw [rpnValue_of_scan hscan, hnil]
    rfl

/-- The tree is missing just when the sequence is empty. -/
theorem ofInfix_eq_emptyExpression
    (hscan : bracketError? 0 tokens = none) :
    Expr.ofInfix tokens = .error .emptyExpression ↔ spelling tokens = [] := by
  constructor
  · intro herror
    rcases ofInfix_eq_error hscan herror with hrefused | ⟨hbuild, _⟩
    · rcases TreeBuilder.attemptAll_eq_error hrefused with hdeep | ⟨op, _, hmissing⟩
      · cases hdeep
      · cases hmissing
    · obtain ⟨count, hforest, _, _⟩ := TreeBuilder.forest_of_attemptAll hbuild
      exact (List.append_eq_nil_iff.mp hforest.symm).2
  · intro hnil
    have hcalls : Pending.start.calls tokens = [] := List.map_eq_nil_iff.mp hnil
    have hbuild : treeBuilder.attemptAll [] (Pending.start.calls tokens) = .ok [] := by
      rw [hcalls]
      rfl
    rw [ofInfix_of_stack hscan hbuild]
    rfl

/-- Several values are left: the loop of the evaluator ends with them, and the
tree has the one on top. -/
theorem several_left
    {found : Nat}
    (hscan : bracketError? 0 tokens = none)
    (hmany : 2 ≤ found)
    (herror : (LineReport.ofTokens tokens).rpnValue = .error (.eval (.malformedExpression found))) :
    found = (Token.values tokens).length - (Token.operators tokens).length ∧
      ∃ top below applications,
        (spelling tokens).foldlM Rpn.evalStep [] [] = .ok (top :: below) applications ∧
        ((LineReport.ofTokens tokens).treeValue = .ok top ∨
          (LineReport.ofTokens tokens).treeValue = .error (.parse (.treeTooDeep maxLevels))) := by
  rcases run_of_rpnValue_error hscan herror with hfailed | ⟨values, hrun, hfound, _⟩
  · exact absurd hfailed (Rpn.stackRun_ne_malformed [] _ found)
  · injection hfound with hlength
    have hleft := length_of_run hscan hrun
    refine ⟨by omega, ?_⟩
    cases values with
    | nil =>
        rw [hlength, List.length_nil] at hmany
        omega
    | cons top below =>
        have hresult := Rpn.resultOf_foldlM (spelling tokens) [] []
        rw [hrun] at hresult
        obtain ⟨applications, hloop⟩ := eq_ok_of_resultOf hresult
        exact ⟨top, below, applications, hloop, treeValue_of_run hscan hrun⟩

/-- A tree for a sequence that is short of values has no surplus operand: with
one the sequence would spell trees. -/
theorem length_le_of_short
    {op : Operator} {tree : Expr}
    (hscan : bracketError? 0 tokens = none)
    (hrun : Rpn.stackRun [] (spelling tokens) = .error (.insufficientOperands op))
    (htree : Expr.ofInfix tokens = .ok tree) :
    (Token.values tokens).length ≤ (Token.operators tokens).length := by
  by_contra hmany
  obtain ⟨trees, _, _, hspelled⟩ :=
    Expr.trees_of_many htree (rpn_eq_ok.mpr ⟨hscan, rfl⟩) (Nat.not_le.mp hmany)
  rw [hspelled] at hrun
  exact Rpn.stackRun_trees trees [] op hrun

theorem short_of_values
    {op : Operator}
    (hscan : bracketError? 0 tokens = none)
    (herror : (LineReport.ofTokens tokens).rpnValue = .error (.eval (.insufficientOperands op))) :
    Expr.ofInfix tokens = .error (.missingOperand op) ∨
      Expr.ofInfix tokens = .error (.treeTooDeep maxLevels) ∨
      (∃ tree, Expr.ofInfix tokens = .ok tree) ∧
        (Token.values tokens).length ≤ (Token.operators tokens).length := by
  have hrun := failed_run_of_rpnValue hscan (fun _ => by simp) herror
  cases hparsed : Expr.ofInfix tokens with
  | ok tree =>
      exact Or.inr (Or.inr ⟨⟨tree, rfl⟩, length_le_of_short hscan hrun hparsed⟩)
  | error error =>
      cases lockstep_attemptAll .nil (Pending.start.calls tokens) with
      | tooDeep hbuild =>
          rw [ofInfix_of_refused hbuild] at hparsed
          cases hparsed
          exact Or.inr (Or.inl rfl)
      | agreement hsame hbuild hstacks =>
          cases hrun.symm.trans hsame
      | arithmetic harithmetic hfailed =>
          cases hrun.symm.trans hfailed
          cases harithmetic
      | short hcalls hcall hfailed hbuild hleft =>
          cases hrun.symm.trans hfailed
          rcases error_of_short hscan hcalls hcall hbuild hleft with hmissing | hdeep
          · rw [ofInfix_of_refused hmissing] at hparsed
            cases hparsed
            exact Or.inl rfl
          · rcases ofInfix_eq_error hscan hparsed with hrefused | ⟨_, rfl⟩
            · obtain rfl := hdeep error hrefused
              exact Or.inr (Or.inl rfl)
            · rw [(ofInfix_eq_emptyExpression hscan).mp hparsed] at hrun
              cases hrun

theorem short_of_subtrees
    {op : Operator}
    (hscan : bracketError? 0 tokens = none)
    (hmissing : Expr.ofInfix tokens = .error (.missingOperand op)) :
    (LineReport.ofTokens tokens).rpnValue = .error (.eval (.insufficientOperands op)) ∨
      ∃ error : EvalError,
        error.IsArithmetic ∧
        (LineReport.ofTokens tokens).rpnValue = .error (.eval error) := by
  have hrefused :
      treeBuilder.attemptAll [] (Pending.start.calls tokens) = .error (.missingOperand op) := by
    rcases ofInfix_eq_error hscan hmissing with hrefused | ⟨_, hempty⟩
    · exact hrefused
    · cases hempty
  cases lockstep_attemptAll .nil (Pending.start.calls tokens) with
  | tooDeep hbuild =>
      cases hrefused.symm.trans hbuild
  | agreement hrun hbuild hstacks =>
      cases hrefused.symm.trans hbuild
  | @arithmetic error herror hrun =>
      exact Or.inr ⟨error, herror, rpnValue_of_failed_run hscan hrun⟩
  | short hcalls hcall hrun hbuild hleft =>
      rcases error_of_short hscan hcalls hcall hbuild hleft with hsame | hdeep
      · cases hrefused.symm.trans hsame
        exact Or.inl (rpnValue_of_failed_run hscan hrun)
      · cases hdeep _ hrefused

/-- Without surplus operands the tree is the sequence behind zeros, which leave
an error of the arithmetic as it is. -/
theorem evaluate_of_arithmetic
    {error : EvalError} {tree : Expr}
    (harithmetic : error.IsArithmetic)
    (hscan : bracketError? 0 tokens = none)
    (hrun : Rpn.stackRun [] (spelling tokens) = .error error)
    (hfew : (Token.values tokens).length ≤ (Token.operators tokens).length + 1)
    (htree : Expr.ofInfix tokens = .ok tree) :
    tree.evaluate = .error error := by
  have hspelled := Expr.toRpn_of_few htree (rpn_eq_ok.mpr ⟨hscan, rfl⟩) hfew
  apply Rpn.evaluate_of_stackRun_error
  rw [hspelled, Rpn.stackRun_append, Rpn.stackRun_replicate, ok_bind]
  exact Rpn.stackRun_of_arithmetic harithmetic hrun _

theorem treeValue_of_arithmetic
    {error : EvalError} {tree : Expr}
    (harithmetic : error.IsArithmetic)
    (hscan : bracketError? 0 tokens = none)
    (herror : (LineReport.ofTokens tokens).rpnValue = .error (.eval error))
    (hfew : (Token.values tokens).length ≤ (Token.operators tokens).length + 1)
    (htree : Expr.ofInfix tokens = .ok tree) :
    (LineReport.ofTokens tokens).treeValue = .error (.eval error) := by
  have hshape : ∀ found, error ≠ .malformedExpression found := by
    rintro found rfl
    cases harithmetic
  have hrun := failed_run_of_rpnValue hscan hshape herror
  change LineReport.evaluateWith Expr.evaluate (Expr.ofInfix tokens) = _
  rw [htree, LineReport.evaluateWith, evaluate_of_arithmetic harithmetic hscan hrun hfew
    htree]
  rfl

/-- Whenever a line has a sequence in reverse Polish order, the failures of its
two ways correspond. -/
theorem failures_correspond
    (line : Text) (report : LineReport) (rpn : Rpn)
    (hline : LineReport.ofLine line = .ok report)
    (hrpn : report.rpn = .ok rpn) :
    report.FailuresCorrespond rpn := by
  obtain ⟨tokens, -, rfl⟩ := ofLine_eq_ok.mp hline
  obtain ⟨hscan, rfl⟩ := rpn_eq_ok.mp hrpn
  have hempty := spelling_eq_nil hscan
  constructor
  case nothing_left =>
    exact (rpnValue_eq_malformed_zero hscan).trans hempty
  case nothing_built =>
    exact hempty.symm.trans (ofInfix_eq_emptyExpression hscan).symm
  case several_left =>
    intro found hmany herror
    exact several_left hscan hmany herror
  case short_of_values =>
    intro op herror
    exact short_of_values hscan herror
  case short_of_subtrees =>
    intro op hmissing
    exact short_of_subtrees hscan hmissing
  case arithmetic =>
    intro error tree harithmetic herror hfew htree
    exact treeValue_of_arithmetic harithmetic hscan herror hfew htree

/-- In `( 3 + ) * 2` the sum is reduced in the stream with a single operand. -/
theorem failures_correspond_missing_operand :
    ∃ report,
      LineReport.ofLine "( 3 + ) * 2".toList = .ok report ∧
      report.FailuresCorrespond
        [.number 3, .operator .plus, .number 2, .operator .times] := by
  have htokens :
      Token.ofLine "( 3 + ) * 2".toList =
        .ok [.opening, .number 3, .operator .plus, .closing, .operator .times, .number 2] :=
    Token.ofLine_of_words_eq (by decide) (by decide)
  have hline := ofLine_eq_ok.mpr ⟨_, htokens, rfl⟩
  exact ⟨_, hline, failures_correspond _ _ _ hline (by decide)⟩

end LineReport
end InfixCalc
