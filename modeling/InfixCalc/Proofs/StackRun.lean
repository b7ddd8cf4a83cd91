import InfixCalc.Proofs.Operands
import InfixCalc.Proofs.Traces

/-!
# Evaluation on a stack of values

The results of the two evaluators do not depend on the applications that they
keep, so they can be computed without them: an expression by recursion on the
tree, and a sequence by a run on a stack of values.

* `Rpn.stackRun` : the stack that a sequence leaves above other values.
* `Rpn.stackRun_toRpn` : the sequence of a tree leaves the value of the tree.
* `Rpn.stackRun_append_below` : values further down are never touched, unless
  the run is short of values.
-/

namespace InfixCalc

namespace EvalError

/-- An error of the arithmetic, not of the shape of an expression. -/
inductive IsArithmetic : EvalError → Prop
  | divisionByZero : IsArithmetic .divisionByZero
  | moduloByZero : IsArithmetic .moduloByZero
  | invalidExponent (exponent : Value) : IsArithmetic (.invalidExponent exponent)
  | overflow (op : Operator) (left right : Value) : IsArithmetic (.overflow op left right)

end EvalError

namespace Operator

theorem isArithmetic_of_orOverflow
    {op : Operator} {left right : Value} {found? : Option Value} {error : EvalError}
    (herror : apply.orOverflow op left right found? = .error error) :
    error.IsArithmetic := by
  cases found? with
  | none =>
      cases herror
      exact .overflow op left right
  | some value =>
      cases herror

/-- The only errors of an operator are those of the arithmetic. -/
theorem isArithmetic_of_apply
    {op : Operator} {left right : Value} {error : EvalError}
    (herror : op.apply left right = .error error) :
    error.IsArithmetic := by
  cases op with
  | plus =>
      exact isArithmetic_of_orOverflow herror
  | minus =>
      exact isArithmetic_of_orOverflow herror
  | times =>
      exact isArithmetic_of_orOverflow herror
  | divide =>
      simp only [apply] at herror
      split at herror
      next hzero =>
          cases herror
          exact .divisionByZero
      next hzero =>
          exact isArithmetic_of_orOverflow herror
  | modulo =>
      simp only [apply] at herror
      split at herror
      next hzero =>
          cases herror
          exact .moduloByZero
      next hzero =>
          cases herror
  | power =>
      simp only [apply] at herror
      split at herror
      next value hvalue =>
          cases herror
      next hnone =>
          cases herror
          split
          · exact .invalidExponent right
          · exact .overflow _ left right

end Operator

section Results

variable {ε σ α β : Type}

/-- The result of a computation, without its state. -/
def resultOf : EStateM.Result ε σ α → Except ε α
  | .ok value _ => .ok value
  | .error error _ => .error error

theorem eq_ok_of_resultOf
    {result : EStateM.Result ε σ α} {value : α}
    (hresult : resultOf result = .ok value) :
    ∃ after, result = .ok value after := by
  cases result with
  | ok found after =>
      cases hresult
      exact ⟨after, rfl⟩
  | error error after =>
      cases hresult

theorem resultOf_bind
    {first : EStateM ε σ α} {next : α → EStateM ε σ β} {state : σ}
    {result : Except ε α} {rest : α → Except ε β}
    (hfirst : resultOf (first state) = result)
    (hnext : ∀ value after, resultOf (next value after) = rest value) :
    resultOf ((first >>= next) state) = result >>= rest := by
  cases hrun : first state with
  | ok value after =>
      rw [run_bind_of_ok hrun, hnext, ← hfirst, hrun]
      rfl
  | error error after =>
      rw [run_bind_of_error hrun, ← hfirst, hrun]
      rfl

end Results

theorem Application.resultOf_make
    (application : Application) (earlier : List Application) :
    resultOf (application.make earlier) = application.value := by
  unfold Application.make
  cases application.value <;> rfl

theorem Evaluation.result_run
    (evaluation : EvalM Value) :
    (Evaluation.run evaluation).result = resultOf (evaluation []) := by
  unfold Evaluation.run
  cases evaluation [] <;> rfl

namespace Expr

theorem evaluate_eq_resultOf
    (tree : Expr) :
    tree.evaluate = resultOf (tree.evalM []) := by
  exact Evaluation.result_run tree.evalM

theorem resultOf_evalM_binary
    {op : Operator} {left right : Expr}
    (hleft : ∀ earlier, resultOf (left.evalM earlier) = left.evaluate)
    (hright : ∀ earlier, resultOf (right.evalM earlier) = right.evaluate)
    (earlier : List Application) :
    resultOf ((Expr.binary op left right).evalM earlier) =
      left.evaluate >>= fun first => right.evaluate >>= fun second =>
        op.apply first second := by
  refine resultOf_bind (hleft earlier) fun first after => ?_
  refine resultOf_bind (hright after) fun second later => ?_
  exact Application.resultOf_make ⟨op, first, second⟩ later

/-- The result of an evaluation does not depend on what was applied before. -/
theorem resultOf_evalM
    (tree : Expr) (earlier : List Application) :
    resultOf (tree.evalM earlier) = tree.evaluate := by
  induction tree generalizing earlier with
  | number value =>
      rfl
  | binary op left right ihLeft ihRight =>
      rw [evaluate_eq_resultOf, resultOf_evalM_binary ihLeft ihRight,
        resultOf_evalM_binary ihLeft ihRight]

@[simp] theorem evaluate_number
    (value : Value) :
    (Expr.number value).evaluate = .ok value := by
  rfl

theorem evaluate_binary
    (op : Operator) (left right : Expr) :
    (Expr.binary op left right).evaluate =
      left.evaluate >>= fun first => right.evaluate >>= fun second =>
        op.apply first second := by
  rw [evaluate_eq_resultOf]
  exact resultOf_evalM_binary left.resultOf_evalM right.resultOf_evalM []

/-- A tree is never short of operands. -/
theorem isArithmetic_of_evaluate
    {tree : Expr} {error : EvalError}
    (herror : tree.evaluate = .error error) :
    error.IsArithmetic := by
  induction tree with
  | number value =>
      cases herror
  | binary op left right ihLeft ihRight =>
      rw [evaluate_binary] at herror
      cases hleft : left.evaluate with
      | error failure =>
          rw [hleft] at herror
          cases herror
          exact ihLeft hleft
      | ok first =>
          cases hright : right.evaluate with
          | error failure =>
              rw [hleft, hright] at herror
              cases herror
              exact ihRight hright
          | ok second =>
              rw [hleft, hright] at herror
              exact Operator.isArithmetic_of_apply herror

end Expr

namespace Rpn

/-- Reads one token on a stack of values, its top first. -/
def stackStep (values : List Value) (token : Token) : Except EvalError (List Value) :=
  match token with
  | .number value => .ok (value :: values)
  | .operator op =>
      match values with
      | right :: left :: rest =>
          op.apply left right >>= fun result => .ok (result :: rest)
      | _ => .error (.insufficientOperands op)
  | other => .error (.unknownOperator other)

/-- Reads a sequence on a stack of values. -/
def stackRun (values : List Value) (rpn : Rpn) : Except EvalError (List Value) :=
  rpn.foldlM stackStep values

@[simp] theorem stackRun_nil
    (values : List Value) :
    stackRun values [] = .ok values := by
  rfl

theorem stackRun_cons
    (values : List Value) (token : Token) (rest : Rpn) :
    stackRun values (token :: rest) =
      stackStep values token >>= fun after => stackRun after rest := by
  rfl

theorem stackRun_append
    (values : List Value) (first second : Rpn) :
    stackRun values (first ++ second) =
      stackRun values first >>= fun after => stackRun after second := by
  exact List.foldlM_append

/-- A step that goes on has read an operand, or an operator with two values. -/
theorem stackStep_eq_ok
    {values after : List Value} {token : Token}
    (hstep : stackStep values token = .ok after) :
    (∃ value, token = .number value ∧ after = value :: values) ∨
    (∃ op right left below result,
      token = .operator op ∧
      values = right :: left :: below ∧
      op.apply left right = .ok result ∧
      after = result :: below) := by
  cases token with
  | operator op =>
      match values with
      | [] =>
          cases hstep
      | [_] =>
          cases hstep
      | right :: left :: below =>
          obtain ⟨result, happly, hafter⟩ := bind_eq_ok.mp hstep
          cases hafter
          exact Or.inr ⟨op, right, left, below, result, rfl, rfl, happly, rfl⟩
  | number value =>
      cases hstep
      exact Or.inl ⟨value, rfl, rfl⟩
  | opening =>
      cases hstep
  | closing =>
      cases hstep
  | bottom =>
      cases hstep

theorem stackStep_ne_malformed
    (values : List Value) (token : Token) (found : Nat) :
    stackStep values token ≠ .error (.malformedExpression found) := by
  intro herror
  cases token with
  | operator op =>
      match values with
      | [] =>
          cases herror
      | [_] =>
          cases herror
      | right :: left :: below =>
          cases happly : op.apply left right with
          | ok result =>
              simp [stackStep, happly] at herror
          | error error =>
              simp [stackStep, happly] at herror
              subst herror
              cases Operator.isArithmetic_of_apply happly
  | number value =>
      cases herror
  | opening =>
      cases herror
  | closing =>
      cases herror
  | bottom =>
      cases herror

/-- Operands add a value and operators take one away. -/
theorem length_of_stackRun
    {values after : List Value} {rpn : Rpn}
    (hrun : stackRun values rpn = .ok after) :
    after.length + (Token.operators rpn).length =
      values.length + (Token.values rpn).length := by
  induction rpn generalizing values with
  | nil =>
      cases hrun
      rfl
  | cons token rest ih =>
      rw [stackRun_cons] at hrun
      obtain ⟨next, hstep, hrest⟩ := bind_eq_ok.mp hrun
      have hlength := ih hrest
      rcases stackStep_eq_ok hstep with
        ⟨value, rfl, rfl⟩ | ⟨op, right, left, below, result, rfl, rfl, _, rfl⟩
      · simp at hlength ⊢
        omega
      · simp at hlength ⊢
        omega

/-- Only the empty sequence leaves nothing. -/
theorem eq_nil_of_stackRun
    {values : List Value} {rpn : Rpn}
    (hrun : stackRun values rpn = .ok []) :
    rpn = [] := by
  rcases List.eq_nil_or_concat rpn with hnil | ⟨earlier, last, rfl⟩
  · exact hnil
  · rw [List.concat_eq_append, stackRun_append] at hrun
    obtain ⟨before, _, hlast⟩ := bind_eq_ok.mp hrun
    rw [stackRun_cons] at hlast
    obtain ⟨after, hstep, hend⟩ := bind_eq_ok.mp hlast
    cases hend
    rcases stackStep_eq_ok hstep with
      ⟨value, _, hafter⟩ | ⟨op, right, left, below, result, _, _, _, hafter⟩
    · cases hafter
    · cases hafter

/-- The evaluator's steps have the results of the run on the stack. -/
theorem resultOf_evalStep
    (values : List Value) (token : Token) (earlier : List Application) :
    resultOf (evalStep values token earlier) = stackStep values token := by
  cases token with
  | operator op =>
      match values with
      | [] =>
          rfl
      | [_] =>
          rfl
      | right :: left :: rest =>
          refine resultOf_bind (Application.resultOf_make ⟨op, left, right⟩ earlier)
            fun result after => ?_
          rfl
  | number value =>
      rfl
  | opening =>
      rfl
  | closing =>
      rfl
  | bottom =>
      rfl

theorem resultOf_foldlM
    (rpn : Rpn) (values : List Value) (earlier : List Application) :
    resultOf (rpn.foldlM evalStep values earlier) = stackRun values rpn := by
  induction rpn generalizing values earlier with
  | nil =>
      rfl
  | cons token rest ih =>
      rw [List.foldlM_cons, stackRun_cons]
      exact resultOf_bind (resultOf_evalStep values token earlier) fun after later =>
        ih after later

/-- The single value of a stack, or the error that says how many there are. -/
def single : List Value → Except EvalError Value
  | [value] => .ok value
  | values => .error (.malformedExpression values.length)

/-- The value of a sequence is the single value that its run leaves. -/
theorem evaluate_eq_stackRun
    (rpn : Rpn) :
    rpn.evaluate = stackRun [] rpn >>= single := by
  rw [evaluate, evaluation, Evaluation.result_run]
  refine resultOf_bind (resultOf_foldlM rpn [] []) fun values after => ?_
  rcases values with _ | ⟨value, _ | ⟨next, rest⟩⟩
  · rfl
  · rfl
  · rfl

theorem single_eq_ok
    {values : List Value} {value : Value}
    (hsingle : single values = .ok value) :
    values = [value] := by
  match values with
  | [] =>
      cases hsingle
  | [_] =>
      cases hsingle
      rfl
  | _ :: _ :: _ =>
      cases hsingle

theorem single_eq_error
    {values : List Value} {error : EvalError}
    (hsingle : single values = .error error) :
    error = .malformedExpression values.length ∧ values.length ≠ 1 := by
  match values with
  | [] =>
      cases hsingle
      simp
  | [_] =>
      cases hsingle
  | _ :: _ :: _ =>
      cases hsingle
      simp

/-- A run never counts the values that it leaves; only its end does. -/
theorem stackRun_ne_malformed
    (values : List Value) (rpn : Rpn) (found : Nat) :
    stackRun values rpn ≠ .error (.malformedExpression found) := by
  induction rpn generalizing values with
  | nil =>
      intro herror
      cases herror
  | cons token rest ih =>
      intro herror
      rw [stackRun_cons] at herror
      cases hstep : stackStep values token with
      | ok after =>
          rw [hstep] at herror
          exact ih after herror
      | error error =>
          rw [hstep] at herror
          cases herror
          exact stackStep_ne_malformed values token found hstep

/-- The sequence of a tree leaves the value of the tree, above any values and
before any tokens. -/
theorem stackRun_toRpn
    (tree : Expr) (values : List Value) (rest : Rpn) :
    stackRun values (tree.toRpn ++ rest) =
      tree.evaluate >>= fun value => stackRun (value :: values) rest := by
  rw [← resultOf_foldlM _ values [], foldlM_toRpn]
  exact resultOf_bind (tree.resultOf_evalM []) fun value after =>
    resultOf_foldlM rest (value :: values) after

theorem evaluate_toRpn
    (tree : Expr) :
    Rpn.evaluate tree.toRpn = tree.evaluate := by
  have hrun := stackRun_toRpn tree [] []
  rw [List.append_nil] at hrun
  rw [evaluate_eq_stackRun, hrun]
  cases tree.evaluate with
  | ok value =>
      rfl
  | error error =>
      rfl

/-- Trees that are read one after another are never short of values. -/
theorem stackRun_trees
    (trees : List Expr) (values : List Value) (op : Operator) :
    stackRun values (trees.map Expr.toRpn).flatten ≠ .error (.insufficientOperands op) := by
  induction trees generalizing values with
  | nil =>
      intro herror
      cases herror
  | cons tree rest ih =>
      intro herror
      rw [List.map_cons, List.flatten_cons, stackRun_toRpn] at herror
      cases htree : tree.evaluate with
      | ok value =>
          rw [htree] at herror
          exact ih (value :: values) herror
      | error error =>
          rw [htree] at herror
          cases herror
          cases Expr.isArithmetic_of_evaluate htree

theorem stackRun_replicate
    (count : Nat) (value : Value) (values : List Value) :
    stackRun values (List.replicate count (.number value)) =
      .ok (List.replicate count value ++ values) := by
  induction count generalizing values with
  | zero =>
      rfl
  | succ count ih =>
      rw [List.replicate_succ, stackRun_cons]
      change stackRun (value :: values) (List.replicate count (.number value)) = _
      rw [ih, List.replicate_succ', List.append_assoc]
      rfl

theorem stackStep_append_below
    {values : List Value} {token : Token}
    (henough : ∀ op, stackStep values token ≠ .error (.insufficientOperands op))
    (below : List Value) :
    stackStep (values ++ below) token = (stackStep values token).map (· ++ below) := by
  cases token with
  | operator op =>
      match values with
      | [] =>
          exact absurd rfl (henough op)
      | [_] =>
          exact absurd rfl (henough op)
      | right :: left :: rest =>
          simp only [stackStep, List.cons_append]
          cases op.apply left right <;> rfl
  | number value =>
      rfl
  | opening =>
      rfl
  | closing =>
      rfl
  | bottom =>
      rfl

/-- Values further down are never touched, and unless the run is short of
values they change nothing above them. -/
theorem stackRun_append_below
    {values : List Value} {rpn : Rpn}
    (henough : ∀ op, stackRun values rpn ≠ .error (.insufficientOperands op))
    (below : List Value) :
    stackRun (values ++ below) rpn = (stackRun values rpn).map (· ++ below) := by
  induction rpn generalizing values with
  | nil =>
      rfl
  | cons token rest ih =>
      simp only [stackRun_cons] at henough ⊢
      cases hstep : stackStep values token with
      | error error =>
          rw [hstep] at henough
          rw [stackStep_append_below (by rw [hstep]; exact henough) below, hstep]
          rfl
      | ok after =>
          rw [hstep] at henough
          rw [stackStep_append_below (by simp [hstep]) below, hstep]
          exact ih henough

/-- An error of the arithmetic comes up above any values. -/
theorem stackRun_of_arithmetic
    {rpn : Rpn} {error : EvalError}
    (harithmetic : error.IsArithmetic)
    (hrun : stackRun [] rpn = .error error)
    (values : List Value) :
    stackRun values rpn = .error error := by
  have henough : ∀ op, stackRun [] rpn ≠ .error (.insufficientOperands op) := by
    intro op hshort
    cases hrun.symm.trans hshort
    cases harithmetic
  have habove := stackRun_append_below henough values
  rwa [hrun] at habove

theorem evaluate_of_stackRun_error
    {tree : Expr} {error : EvalError}
    (hrun : stackRun [] tree.toRpn = .error error) :
    tree.evaluate = .error error := by
  rw [← evaluate_toRpn, evaluate_eq_stackRun, hrun]
  rfl

end Rpn
end InfixCalc
