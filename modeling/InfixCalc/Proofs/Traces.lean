import InfixCalc.Evaluation
import InfixCalc.Proofs.Sequencing

/-!
# The applications of an evaluation

An evaluation keeps the applications that it makes.  A tree and its sequence in
reverse Polish order make the same ones in the same order, so they also end in
the same way, and they make none after the first that has no value.

* `Rpn.foldlM_toRpn` : the sequence of a tree does what the tree does, above
  any values and before any tokens.
* `Evaluation.StopsAtFailure` : only the last application may fail, and its
  error is the result.
* `Rpn.evaluation_toRpn` : the two evaluations of a tree are the same, and stop
  at the first failure.
-/

namespace InfixCalc

namespace Application

/-- All of the applications have a value. -/
def AllHaveValues (applications : List Application) : Prop :=
  ∀ application ∈ applications, ∃ value, application.value = .ok value

theorem allHaveValues_nil :
    AllHaveValues [] := by
  intro application hmem
  cases hmem

theorem AllHaveValues.append
    {first second : List Application}
    (hfirst : AllHaveValues first) (hsecond : AllHaveValues second) :
    AllHaveValues (first ++ second) := by
  intro application hmem
  rcases List.mem_append.mp hmem with hleft | hright
  · exact hfirst application hleft
  · exact hsecond application hright

theorem AllHaveValues.reverse
    {applications : List Application}
    (hvalues : AllHaveValues applications) :
    AllHaveValues applications.reverse := by
  intro application hmem
  exact hvalues application (List.mem_reverse.mp hmem)

/-- How a computation may come out that keeps its applications above the
`earlier` ones: with all of them having values, or with the error of the last
one. -/
inductive Kept {α : Type} (earlier : List Application) :
    EStateM.Result EvalError (List Application) α → Prop
  | value {found : α} {made : List Application} :
      AllHaveValues made →
      Kept earlier (.ok found (made ++ earlier))
  | failure {error : EvalError} {last : Application} {made : List Application} :
      AllHaveValues made →
      last.value = .error error →
      Kept earlier (.error error (last :: (made ++ earlier)))

namespace Kept

variable {α β : Type} {earlier : List Application}

theorem ofPure
    (found : α) :
    Kept earlier ((pure found : EvalM α) earlier) := by
  exact .value allHaveValues_nil

theorem ofMake
    (application : Application) :
    Kept earlier (application.make earlier) := by
  unfold make
  cases hvalue : application.value with
  | ok value =>
      have hmade : AllHaveValues [application] := by
        intro other hother
        rw [List.mem_singleton.mp hother]
        exact ⟨value, hvalue⟩
      exact .value hmade
  | error error =>
      exact .failure allHaveValues_nil hvalue

/-- What is kept above applications that have values is kept with them above
the earlier ones. -/
theorem append
    {made : List Application} {result : EStateM.Result EvalError (List Application) α}
    (hmade : AllHaveValues made) (hkept : Kept (made ++ earlier) result) :
    Kept earlier result := by
  cases hkept with
  | @value found later hlater =>
      rw [← List.append_assoc]
      exact .value (hlater.append hmade)
  | @failure error last later hlater hlast =>
      rw [← List.append_assoc]
      exact .failure (hlater.append hmade) hlast

theorem ofBind
    {first : EvalM α} {next : α → EvalM β}
    (hfirst : Kept earlier (first earlier))
    (hnext : ∀ found after, Kept after (next found after)) :
    Kept earlier ((first >>= next) earlier) := by
  cases hrun : first earlier with
  | error error after =>
      rw [run_bind_of_error hrun]
      rw [hrun] at hfirst
      cases hfirst with
      | failure hmade hlast =>
          exact .failure hmade hlast
  | ok found after =>
      rw [run_bind_of_ok hrun]
      rw [hrun] at hfirst
      cases hfirst with
      | value hmade =>
          exact .append hmade (hnext found _)

end Kept
end Application

namespace Evaluation

open Application

/-- All applications have values, or the last one alone has none, and its error
is the result. -/
inductive StopsAtFailure : Evaluation → Prop
  | value {found : Value} {applications : List Application} :
      AllHaveValues applications →
      StopsAtFailure ⟨.ok found, applications⟩
  | failure {error : EvalError} {earlier : List Application} {last : Application} :
      AllHaveValues earlier →
      last.value = .error error →
      StopsAtFailure ⟨.error error, earlier ++ [last]⟩

theorem stopsAtFailure_run
    {evaluation : EvalM Value}
    (hkept : Kept [] (evaluation [])) :
    StopsAtFailure (.run evaluation) := by
  unfold run
  cases hrun : evaluation [] with
  | ok found applications =>
      rw [hrun] at hkept
      cases hkept with
      | @value _ made hmade =>
          rw [List.append_nil]
          exact .value hmade.reverse
  | error error applications =>
      rw [hrun] at hkept
      cases hkept with
      | @failure _ last made hmade hlast =>
          simp only [List.append_nil, List.reverse_cons]
          exact .failure hmade.reverse hlast

end Evaluation

namespace Expr

open Application

theorem evalM_binary
    (op : Operator) (left right : Expr) :
    (Expr.binary op left right).evalM =
      left.evalM >>= fun first => right.evalM >>= fun second =>
        Application.make ⟨op, first, second⟩ := by
  rfl

theorem kept_evalM
    (tree : Expr) (earlier : List Application) :
    Kept earlier (tree.evalM earlier) := by
  induction tree generalizing earlier with
  | number value =>
      exact .ofPure value
  | binary op left right ihLeft ihRight =>
      rw [evalM_binary]
      refine .ofBind (ihLeft earlier) fun first afterLeft => ?_
      refine .ofBind (ihRight afterLeft) fun second afterRight => ?_
      exact .ofMake ⟨op, first, second⟩

end Expr

namespace Rpn

/-- The sequence of a tree evaluates the tree, above any values and before any
tokens. -/
theorem foldlM_toRpn
    (tree : Expr) (values : List Value) (rest : Rpn) :
    (tree.toRpn ++ rest).foldlM evalStep values =
      tree.evalM >>= fun value => rest.foldlM evalStep (value :: values) := by
  induction tree generalizing values rest with
  | number value =>
      rfl
  | binary op left right ihLeft ihRight =>
      have hoperator : ∀ first second,
          (.operator op :: rest).foldlM evalStep (second :: first :: values) =
            Application.make ⟨op, first, second⟩ >>= fun result =>
              rest.foldlM evalStep (result :: values) := by
        intro first second
        rw [List.foldlM_cons, evalStep, bind_assoc]
        simp only [pure_bind]
      rw [Expr.toRpn, List.append_assoc, List.append_assoc, ihLeft, Expr.evalM_binary,
        bind_assoc]
      simp only [ihRight, List.singleton_append, hoperator, bind_assoc]

/-- The sequence of a tree makes the applications that the tree makes, in the
same order and with the same result; both stop at the first application that
has no value. -/
theorem evaluation_toRpn
    (tree : Expr) :
    Rpn.evaluation tree.toRpn = tree.evaluation ∧
      tree.evaluation.StopsAtFailure := by
  have hwhole := foldlM_toRpn tree [] []
  rw [List.append_nil] at hwhole
  constructor
  · rw [evaluation, Expr.evaluation, hwhole, bind_assoc]
    simp only [List.foldlM_nil, pure_bind, takeSingle, bind_pure]
  · exact Evaluation.stopsAtFailure_run (tree.kept_evalM [])

end Rpn
end InfixCalc
