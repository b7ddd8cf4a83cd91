import InfixCalc.Proofs.Requests

/-!
# The ranks of waiting operators

An operator that comes to wait has first reduced those of its level that bind at least
as tightly.  So at every level the ranks fall strictly from the top down, and as there
are three ranks, at most three operators wait at a level.  The operators that are left
after the last token are those of the innermost level.

* `Pending.Descending` : the ranks fall at every level, which every token preserves.
* `Pending.descends_trailing` : the reductions after the last token are in falling ranks.
* `trailing_run` : those that a run makes, on any builder.
-/

namespace InfixCalc
namespace Parse

namespace Call

/-- The operator of a reduction after the last token. -/
def trailing? : Call → Option Operator
  | reduceTrailing op => some op
  | _ => none

/-- The operators that are reduced after the last token, in the order of the calls. -/
def trailing (calls : List Call) : List Operator :=
  calls.filterMap trailing?

@[simp] theorem trailing_cons_operand
    (value : Value) (rest : List Call) :
    trailing (.operand value :: rest) = trailing rest := by
  rfl

@[simp] theorem trailing_append
    (first second : List Call) :
    trailing (first ++ second) = trailing first ++ trailing second := by
  exact List.filterMap_append

@[simp] theorem trailing_reductions
    (operators : List Operator) :
    trailing (Pending.reductions operators) = [] := by
  simp [trailing, Pending.reductions, trailing?]

@[simp] theorem trailing_trailingReductions
    (operators : List Operator) :
    trailing (Pending.trailingReductions operators) = operators := by
  simp [trailing, Pending.trailingReductions, trailing?, Function.comp_def]

end Call

namespace Pending

/-- The ranks of the operators fall from one to the next. -/
def Descends (operators : List Operator) : Prop :=
  operators.Pairwise fun above below => below.rank < above.rank

section Levels

variable {op : Operator} {waiting : List Operator}

/-- What an operator leaves binds looser than it does. -/
theorem rank_lt_of_mem_staying
    (hdescends : Descends waiting) :
    ∀ earlier ∈ staying op waiting, earlier.rank < op.rank := by
  induction waiting with
  | nil =>
      exact List.forall_mem_nil _
  | cons top waiting ih =>
      obtain ⟨hbelow, hrest⟩ := List.pairwise_cons.mp hdescends
      by_cases hrank : op.rank ≤ top.rank
      · rw [staying_cons_of_le hrank]
        exact ih hrest
      · have hlower := Nat.not_le.mp hrank
        rw [staying_cons_of_lt hlower]
        refine List.forall_mem_cons.mpr ⟨hlower, ?_⟩
        intro earlier hearlier
        exact Nat.lt_trans (hbelow earlier hearlier) hlower

/-- An operator comes to wait on top of those that it leaves. -/
theorem Descends.push
    (hdescends : Descends waiting) :
    Descends (op :: staying op waiting) := by
  refine List.pairwise_cons.mpr ⟨rank_lt_of_mem_staying hdescends, ?_⟩
  exact List.Pairwise.sublist (List.dropWhile_sublist _) hdescends

/-- There are only three ranks to fall through. -/
theorem Descends.length_le
    (hdescends : Descends waiting) :
    waiting.length ≤ 3 := by
  have hdistinct : (waiting.map Operator.rank).Nodup := by
    rw [List.nodup_iff_pairwise_ne, List.pairwise_map]
    exact hdescends.imp Nat.ne_of_gt
  have hranks : waiting.map Operator.rank ⊆ [1, 2, 3] := by
    intro rank hrank
    obtain ⟨found, _, rfl⟩ := List.mem_map.mp hrank
    cases found <;> simp [Operator.rank]
  simpa using hdistinct.length_le_of_subset hranks

end Levels

/-- The ranks fall at every level. -/
structure Descending (pending : Pending) : Prop where
  inner : Descends pending.inner
  outer : ∀ level ∈ pending.outer, Descends level

namespace Descending

variable {inner level : List Operator} {outer : List (List Operator)}

theorem start :
    Descending .start := by
  exact ⟨List.Pairwise.nil, List.forall_mem_nil _⟩

theorem opening
    (hdescending : Descending ⟨inner, outer⟩) :
    Descending ⟨[], inner :: outer⟩ := by
  exact ⟨List.Pairwise.nil, List.forall_mem_cons.mpr ⟨hdescending.inner, hdescending.outer⟩⟩

theorem closing
    (hdescending : Descending ⟨inner, level :: outer⟩) :
    Descending ⟨level, outer⟩ := by
  obtain ⟨hlevel, houter⟩ := List.forall_mem_cons.mp hdescending.outer
  exact ⟨hlevel, houter⟩

theorem operator
    (hdescending : Descending ⟨inner, outer⟩) (op : Operator) :
    Descending ⟨op :: staying op inner, outer⟩ := by
  exact ⟨hdescending.inner.push, hdescending.outer⟩

end Descending

/-- The reductions that the pass makes after the last token are in falling ranks. -/
theorem descends_trailing
    {pending : Pending}
    (hdescending : pending.Descending) (tokens : List Token) :
    Descends (Call.trailing (pending.calls tokens)) := by
  induction tokens generalizing pending with
  | nil =>
      obtain ⟨inner, outer⟩ := pending
      simpa using hdescending.inner
  | cons token rest ih =>
      obtain ⟨inner, outer⟩ := pending
      cases token with
      | number value =>
          simpa using ih hdescending
      | opening =>
          rw [calls_opening]
          split
          · exact List.Pairwise.nil
          · exact ih hdescending.opening
      | closing =>
          cases outer with
          | nil =>
              simp [Descends]
          | cons level outer =>
              simpa using ih hdescending.closing
      | operator op =>
          simpa using ih (hdescending.operator op)
      | bottom =>
          rw [calls_bottom]
          exact List.Pairwise.nil

end Pending

variable {σ α : Type}

/-- Whatever its builder does, a run makes reductions after the last token for at most
three operators, in falling ranks. -/
theorem trailing_run
    (builder : Builder σ α) (tokens : List Token) :
    (Call.trailing (run builder tokens).calls).length ≤ 3 ∧
      Pending.Descends (Call.trailing (run builder tokens).calls) := by
  have hmade : (run builder tokens).calls <+: Pending.start.calls tokens := by
    rw [calls_run]
    exact builder.made_prefix _ _
  have hdescends : Pending.Descends (Call.trailing (run builder tokens).calls) :=
    List.Pairwise.sublist (hmade.filterMap _).sublist
      (Pending.descends_trailing .start tokens)
  exact ⟨hdescends.length_le, hdescends⟩

end Parse
end InfixCalc
