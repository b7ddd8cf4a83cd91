import InfixCalc.Proofs.Lockstep
import InfixCalc.Proofs.Rereading

/-!
# The two values of a line

A line has a value on two ways, through its tree and through its sequence in
reverse Polish order.  Whenever the sequence has a value, the tree has the same
one, unless it has too many levels to be built.

* `LineReport.treeValue_of_run` : the value of the tree is that on top of the
  stack which the sequence leaves.
* `LineReport.value_agrees` : the two values never differ.
-/

namespace InfixCalc
namespace Parse

theorem ofInfix_of_refused
    {tokens : List Token} {error : ParseError}
    (hcalls : treeBuilder.attemptAll [] (Pending.start.calls tokens) = .error error) :
    Expr.ofInfix tokens = .error error := by
  rw [ofInfix_eq_attemptAll, hcalls]
  rfl

theorem ofInfix_of_stack
    {tokens : List Token} {subtrees : List Subtree}
    (hscan : bracketError? 0 tokens = none)
    (hcalls : treeBuilder.attemptAll [] (Pending.start.calls tokens) = .ok subtrees) :
    Expr.ofInfix tokens = (TreeBuilder.finish subtrees).result := by
  rw [ofInfix_eq_attemptAll, hcalls, hscan]
  rfl

/-- A token list with parentheses in order has no tree because a call is
refused, or because nothing is built. -/
theorem ofInfix_eq_error
    {tokens : List Token} {error : ParseError}
    (hscan : bracketError? 0 tokens = none)
    (herror : Expr.ofInfix tokens = .error error) :
    treeBuilder.attemptAll [] (Pending.start.calls tokens) = .error error ∨
      treeBuilder.attemptAll [] (Pending.start.calls tokens) = .ok [] ∧
        error = .emptyExpression := by
  cases hcalls : treeBuilder.attemptAll [] (Pending.start.calls tokens) with
  | error refusal =>
      rw [ofInfix_of_refused hcalls] at herror
      cases herror
      exact Or.inl rfl
  | ok subtrees =>
      rw [ofInfix_of_stack hscan hcalls] at herror
      cases subtrees with
      | nil =>
          cases herror
          exact Or.inr ⟨rfl, rfl⟩
      | cons top below =>
          rw [finish_cons] at herror
          cases herror

end Parse

namespace LineReport

open Parse

variable {tokens : List Token}

/-- The sequence that the calls of the pass spell. -/
def spelling (tokens : List Token) : Rpn :=
  Call.tokens (Pending.start.calls tokens)

/-- A line has a sequence just when its parentheses are in order. -/
theorem rpn_eq_ok
    {rpn : Rpn} :
    (LineReport.ofTokens tokens).rpn = .ok rpn ↔
      bracketError? 0 tokens = none ∧ rpn = spelling tokens := by
  exact ofInfix_eq_ok

theorem rpnValue_of_scan
    (hscan : bracketError? 0 tokens = none) :
    (LineReport.ofTokens tokens).rpnValue =
      (Rpn.stackRun [] (spelling tokens) >>= Rpn.single).mapError .eval := by
  change LineReport.evaluateWith Rpn.evaluate (Rpn.ofInfix tokens) = _
  rw [ofInfix_eq_tokens, hscan, ← Rpn.evaluate_eq_stackRun]
  rfl

theorem rpnValue_of_failed_run
    {error : EvalError}
    (hscan : bracketError? 0 tokens = none)
    (hrun : Rpn.stackRun [] (spelling tokens) = .error error) :
    (LineReport.ofTokens tokens).rpnValue = .error (.eval error) := by
  rw [rpnValue_of_scan hscan, hrun]
  rfl

/-- A value of the sequence is the single value that its run leaves. -/
theorem run_of_rpnValue_ok
    {value : Value}
    (hvalue : (LineReport.ofTokens tokens).rpnValue = .ok value) :
    bracketError? 0 tokens = none ∧
      Rpn.stackRun [] (spelling tokens) = .ok [value] := by
  cases hscan : bracketError? 0 tokens with
  | some error =>
      change LineReport.evaluateWith Rpn.evaluate (Rpn.ofInfix tokens) = _ at hvalue
      rw [ofInfix_eq_tokens, hscan] at hvalue
      cases hvalue
  | none =>
      rw [rpnValue_of_scan hscan] at hvalue
      cases hrun : Rpn.stackRun [] (spelling tokens) with
      | error error =>
          rw [hrun] at hvalue
          cases hvalue
      | ok values =>
          rw [hrun, ok_bind] at hvalue
          cases hsingle : Rpn.single values with
          | error error =>
              rw [hsingle] at hvalue
              cases hvalue
          | ok found =>
              rw [hsingle] at hvalue
              cases hvalue
              rw [Rpn.single_eq_ok hsingle]
              exact ⟨rfl, rfl⟩

/-- An error of the sequence comes up in its run, or the run leaves other than
one value. -/
theorem run_of_rpnValue_error
    {error : EvalError}
    (hscan : bracketError? 0 tokens = none)
    (herror : (LineReport.ofTokens tokens).rpnValue = .error (.eval error)) :
    Rpn.stackRun [] (spelling tokens) = .error error ∨
      ∃ values,
        Rpn.stackRun [] (spelling tokens) = .ok values ∧
        error = .malformedExpression values.length ∧
        values.length ≠ 1 := by
  rw [rpnValue_of_scan hscan] at herror
  cases hrun : Rpn.stackRun [] (spelling tokens) with
  | error failure =>
      rw [hrun] at herror
      cases herror
      exact Or.inl rfl
  | ok values =>
      rw [hrun, ok_bind] at herror
      cases hsingle : Rpn.single values with
      | error failure =>
          rw [hsingle] at herror
          cases herror
          obtain ⟨rfl, hlength⟩ := Rpn.single_eq_error hsingle
          exact Or.inr ⟨values, rfl, rfl, hlength⟩
      | ok found =>
          rw [hsingle] at herror
          cases herror

/-- An error that does not count values comes up in the run. -/
theorem failed_run_of_rpnValue
    {error : EvalError}
    (hscan : bracketError? 0 tokens = none)
    (hshape : ∀ found, error ≠ .malformedExpression found)
    (herror : (LineReport.ofTokens tokens).rpnValue = .error (.eval error)) :
    Rpn.stackRun [] (spelling tokens) = .error error := by
  rcases run_of_rpnValue_error hscan herror with hrun | ⟨values, _, hfound, _⟩
  · exact hrun
  · exact absurd hfound (hshape values.length)

/-- The sequence has as many operands and operators as the line. -/
theorem length_of_spelling
    (hscan : bracketError? 0 tokens = none) :
    (Token.values (spelling tokens)).length = (Token.values tokens).length ∧
      (Token.operators (spelling tokens)).length = (Token.operators tokens).length := by
  have hcompletes : Pending.start.Completes tokens := Pending.completes_of_scan hscan
  refine ⟨?_, ?_⟩
  · rw [spelling, Pending.values_calls hcompletes]
  · have hperm := Pending.operators_calls hcompletes
    rw [Pending.waiting_start, List.nil_append] at hperm
    exact hperm.length_eq

/-- A run leaves as many values as the line has operands more than operators. -/
theorem length_of_run
    {values : List Value}
    (hscan : bracketError? 0 tokens = none)
    (hrun : Rpn.stackRun [] (spelling tokens) = .ok values) :
    values.length + (Token.operators tokens).length = (Token.values tokens).length := by
  obtain ⟨hvalues, hoperators⟩ := length_of_spelling hscan
  have hlength := Rpn.length_of_stackRun hrun
  rw [hvalues, hoperators, List.length_nil] at hlength
  omega

/-- Where the sequence leaves values, the builder has subtrees with these
values, unless it refuses one with too many levels. -/
theorem build_of_run
    {values : List Value}
    (hrun : Rpn.stackRun [] (spelling tokens) = .ok values) :
    treeBuilder.attemptAll [] (Pending.start.calls tokens) = .error (.treeTooDeep maxLevels) ∨
      ∃ subtrees,
        treeBuilder.attemptAll [] (Pending.start.calls tokens) = .ok subtrees ∧
        Lockstep values subtrees := by
  cases lockstep_attemptAll .nil (Pending.start.calls tokens) with
  | tooDeep hbuild =>
      exact Or.inl hbuild
  | agreement hsame hbuild hstacks =>
      cases hrun.symm.trans hsame
      exact Or.inr ⟨_, hbuild, hstacks⟩
  | arithmetic herror hfailed =>
      cases hrun.symm.trans hfailed
  | short hcalls hcall hfailed hbuild hleft =>
      cases hrun.symm.trans hfailed

/-- The tree has the value on top of the stack that the sequence leaves, unless
it has too many levels. -/
theorem treeValue_of_run
    {top : Value} {below : List Value}
    (hscan : bracketError? 0 tokens = none)
    (hrun : Rpn.stackRun [] (spelling tokens) = .ok (top :: below)) :
    (LineReport.ofTokens tokens).treeValue = .ok top ∨
      (LineReport.ofTokens tokens).treeValue = .error (.parse (.treeTooDeep maxLevels)) := by
  change LineReport.evaluateWith Expr.evaluate (Expr.ofInfix tokens) = _ ∨
    LineReport.evaluateWith Expr.evaluate (Expr.ofInfix tokens) = _
  rcases build_of_run hrun with hdeep | ⟨subtrees, hbuild, hstacks⟩
  · rw [ofInfix_of_refused hdeep]
    exact Or.inr rfl
  · cases hstacks with
    | cons hroot hdiscarded =>
        rw [ofInfix_of_stack hscan hbuild, finish_cons, LineReport.evaluateWith, hroot]
        exact Or.inl rfl

/-- A sequence that leaves a single value is that of the tree. -/
theorem rpn_of_run
    {value : Value} {tree : Expr}
    (hscan : bracketError? 0 tokens = none)
    (hrun : Rpn.stackRun [] (spelling tokens) = .ok [value])
    (htree : Expr.ofInfix tokens = .ok tree) :
    (LineReport.ofTokens tokens).rpn = .ok tree.toRpn := by
  have hoperands := length_of_run hscan hrun
  rw [List.length_singleton] at hoperands
  have hrpn := rpn_eq_ok.mpr ⟨hscan, rfl⟩
  have hspelled := Expr.toRpn_of_few htree hrpn (by omega)
  have hmissing : (Token.operators tokens).length + 1 - (Token.values tokens).length = 0 := by
    omega
  rw [hmissing, List.replicate_zero, List.nil_append] at hspelled
  rw [hspelled, hrpn]

/-- Where the sequence leaves a single value, the pass that builds the tree
writes no warning: it neither takes an operand to be zero nor discards one. -/
theorem level_of_treeRun
    {value : Value} {record : Record}
    (hscan : bracketError? 0 tokens = none)
    (hrun : Rpn.stackRun [] (spelling tokens) = .ok [value])
    (hrecord : record ∈ (treeRun tokens).records) :
    record.level ≠ .warn := by
  have hnotes : ∀ record, .note record ∈ passActions tokens → record.level ≠ .warn :=
    fun _ => level_of_mem_passActions
  have hcalls :
      Rpn.stackRun [] (Call.tokens (Action.calls (passActions tokens))) = .ok [value] := by
    rw [calls_passActions]
    exact hrun
  rw [treeRun, mem_records, run_events, hscan, initial_treeBuilder] at hrecord
  rcases List.mem_append.mp hrecord with hduring | hend
  · exact level_of_eventsOf .nil hcalls hnotes record hduring
  · rcases build_of_run hrun with hdeep | ⟨subtrees, hbuild, hstacks⟩
    · rw [hdeep] at hend
      cases hend
    · cases hstacks with
      | cons hroot hbelow =>
          cases hbelow
          rw [hbuild] at hend
          simp [treeBuilder, TreeBuilder.finish] at hend

/-- If the sequence of a line has a value, then the tree has the same value or
too many levels to be built.  No operand was taken to be zero for it and none
was discarded: the sequence is that of the tree, and the pass that builds the
tree writes no warning. -/
theorem value_agrees
    (line : Text) (report : LineReport) (value : Value)
    (hline : LineReport.ofLine line = .ok report)
    (hvalue : report.rpnValue = .ok value) :
    (report.treeValue = .ok value ∨
        report.treeValue = .error (.parse (.treeTooDeep maxLevels))) ∧
      (∀ other, report.treeValue = .ok other → other = value) ∧
      (∀ tree, report.tree = .ok tree → report.rpn = .ok tree.toRpn) ∧
      (∀ record ∈ (treeRun report.tokens).records, record.level ≠ .warn) := by
  obtain ⟨tokens, -, rfl⟩ := ofLine_eq_ok.mp hline
  obtain ⟨hscan, hrun⟩ := run_of_rpnValue_ok hvalue
  have htree := treeValue_of_run hscan hrun
  refine ⟨htree, ?_, ?_, ?_⟩
  · intro other hother
    rcases htree with hsame | hdeep
    · cases hsame.symm.trans hother
      rfl
    · cases hdeep.symm.trans hother
  · intro tree hbuilt
    exact rpn_of_run hscan hrun hbuilt
  · intro record hrecord
    exact level_of_treeRun hscan hrun hrecord

/-- The line need not be well-formed: in `1 2 +` the operator comes last. -/
theorem value_agrees_operator_last :
    ∃ report,
      LineReport.ofLine "1 2 +".toList = .ok report ∧
      (report.treeValue = .ok 3 ∨
        report.treeValue = .error (.parse (.treeTooDeep maxLevels))) ∧
      (∀ record ∈ (treeRun report.tokens).records, record.level ≠ .warn) := by
  have htokens : Token.ofLine "1 2 +".toList = .ok [.number 1, .number 2, .operator .plus] :=
    Token.ofLine_of_words_eq (by decide) (by decide)
  have hline := ofLine_eq_ok.mpr ⟨_, htokens, rfl⟩
  have hvalue :
      (LineReport.ofTokens [.number 1, .number 2, .operator .plus]).rpnValue = .ok 3 := by
    decide
  obtain ⟨htree, _, _, hrecords⟩ := value_agrees _ _ 3 hline hvalue
  exact ⟨_, hline, htree, hrecords⟩

end LineReport
end InfixCalc
