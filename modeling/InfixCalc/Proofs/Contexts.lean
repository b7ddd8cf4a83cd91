import InfixCalc.Proofs.StackRun

/-!
# Sequences in a context

A sequence in reverse Polish order may stand anywhere among other tokens.  If it
has a value by itself, then it never reaches below the values that it leaves, so
it does there what an operand with this value does: the whole has the same value
or fails in the same way, whatever stands before it and behind it.

* `Rpn.stackRun_of_evaluate` : a sequence with a value, above any values.
* `Rpn.evaluate_of_runs` : sequences that run alike can replace each other.
* `Rpn.value_in_context` : which sequences an operand can replace.
-/

namespace InfixCalc
namespace Rpn

/-- A sequence with a value puts it on top of any values. -/
theorem stackRun_of_evaluate
    {rpn : Rpn} {value : Value}
    (hvalue : rpn.evaluate = .ok value)
    (values : List Value) :
    stackRun values rpn = .ok (value :: values) := by
  rw [evaluate_eq_stackRun] at hvalue
  obtain ⟨left, hrun, hsingle⟩ := bind_eq_ok.mp hvalue
  cases single_eq_ok hsingle
  have henough : ∀ op, stackRun [] rpn ≠ .error (.insufficientOperands op) := by
    intro op hshort
    cases hrun.symm.trans hshort
  have habove := stackRun_append_below henough values
  rwa [hrun] at habove

theorem stackRun_number
    (value : Value) (values : List Value) :
    stackRun values [.number value] = .ok (value :: values) := by
  rfl

/-- Sequences that run alike above any values can replace each other. -/
theorem evaluate_of_runs
    {first second : Rpn}
    (hruns : ∀ values, stackRun values first = stackRun values second)
    (front back : Rpn) :
    Rpn.evaluate (front ++ first ++ back) = Rpn.evaluate (front ++ second ++ back) := by
  simp only [evaluate_eq_stackRun, stackRun_append, hruns]

/-- An operand can replace a sequence in every context, with the same value or
the same error of the whole, just when it is the value of the sequence. -/
theorem value_in_context
    (part : Rpn) (value : Value) :
    part.evaluate = .ok value ↔
      ∀ front back : Rpn,
        Rpn.evaluate (front ++ part ++ back) = Rpn.evaluate (front ++ [.number value] ++ back) := by
  constructor
  · intro hvalue front back
    refine evaluate_of_runs ?_ front back
    intro values
    rw [stackRun_of_evaluate hvalue, stackRun_number]
  · intro hcontexts
    have halone := hcontexts [] []
    rw [List.nil_append, List.nil_append, List.append_nil, List.append_nil] at halone
    rw [halone]
    rfl

/-- In a context that is short of an operand, `8 3 -` fails as 5 does. -/
example :
    Rpn.evaluate [.number 8, .number 3, .operator .minus, .operator .times] =
      Rpn.evaluate [.number 5, .operator .times] := by
  rfl

end Rpn
end InfixCalc
