import InfixCalc.Proofs.Machines

/-!
# The pass with its guards

The pass computes with plain numbers and takes whatever is on top of its stack.  The
guarded pass does the same, but stops with a fault at a product beyond 64 bits, at a
difference below zero and at a quotient that is not exact, where it would take the mark
from the bottom of the stack, and where it would reduce something other than an operator.
What holds of the pass between two tokens keeps it from every fault.

* `machineAfter` : the pass after some of its tokens.
* `Guarded.pass` : the guarded pass.
* `Guarded.closeGroup_eq_lift`, `makeRoom_eq_lift` : the loops meet no fault on a stack
  with its mark at the bottom.
* `Guarded.step_eq_lift`, `fold_eq_lift` : nor does a token, nor a list of tokens.
* `stack_sound` : what holds between any two tokens, and that there are no faults.
-/

namespace InfixCalc
namespace Parse

variable {σ α : Type}

/-- The pass over `tokens` after the first `count` of them. -/
def machineAfter (builder : Builder σ α) (tokens : List Token) (count : Nat) :
    PassM σ Machine := do
  (startRecords tokens).forM note
  (tokens.take count).foldlM (step builder) Machine.initial

/-- What the pass must not do. -/
inductive Fault where
  /-- A product that 64 bits do not hold. -/
  | overflow
  /-- A difference below zero. -/
  | underflow
  /-- A quotient that is not exact. -/
  | inexact
  /-- The mark is taken from the bottom of the stack. -/
  | bottomTaken
  /-- Something other than an operator is reduced. -/
  | noOperator
  deriving DecidableEq, Repr

/-- A guarded pass stops at its first fault, as well as at its first error. -/
abbrev GuardedM (σ : Type) := ExceptT Fault (PassM σ)

namespace Guarded

/-- A product of 64 bits. -/
def product (left right : Nat) : GuardedM σ Nat :=
  if left * right < 2 ^ 64 then pure (left * right) else throw .overflow

/-- A difference that is not below zero. -/
def difference (left right : Nat) : GuardedM σ Nat :=
  if right ≤ left then pure (left - right) else throw .underflow

/-- A quotient that is exact. -/
def quotient (left right : Nat) : GuardedM σ Nat :=
  if right ∣ left then pure (left / right) else throw .inexact

/-- Reduces the entry that was on top. -/
def reduceTop (builder : Builder σ α) (entry : Entry) : GuardedM σ Unit :=
  match entry.token with
  | .operator op => ExceptT.lift (call builder (.reduce op))
  | .bottom => throw .bottomTaken
  | _ => throw .noOperator

/-- Reduces the operators above the innermost open parenthesis and removes it. -/
def closeGroup (builder : Builder σ α) : List Entry → GuardedM σ (List Entry)
  | [] => throw .bottomTaken
  | entry :: rest =>
    match entry.token with
    | .opening => pure rest
    | .bottom => ExceptT.lift unmatchedClosing
    | _ => do
      reduceTop builder entry
      closeGroup builder rest

/-- Reduces the entries on top whose priority is at least `priority`. -/
def makeRoom (builder : Builder σ α) (priority : Nat) :
    List Entry → GuardedM σ (List Entry)
  | [] => throw .bottomTaken
  | entry :: rest =>
    if entry.token = .bottom ∨ entry.priority < priority then
      pure (entry :: rest)
    else do
      reduceTop builder entry
      makeRoom builder priority rest

/-- Reads one token. -/
def step (builder : Builder σ α) (machine : Machine) (token : Token) :
    GuardedM σ Machine :=
  match token with
  | .number value => ExceptT.lift do
    note (operandRecord value)
    call builder (.operand value)
    return machine
  | .opening =>
    if machine.depth = maxNesting then
      ExceptT.lift (throw (.nestingTooDeep maxNesting))
    else do
      let scale ← product machine.scale 10
      return ⟨.opening :: machine.stack, machine.depth + 1, scale⟩
  | .closing => do
    let stack ← closeGroup builder machine.stack
    let depth ← difference machine.depth 1
    let scale ← quotient machine.scale 10
    return ⟨stack, depth, scale⟩
  | .operator op => do
    let priority ← product op.rank machine.scale
    let stack ← makeRoom builder priority machine.stack
    ExceptT.lift (note (pushRecord op priority))
    return ⟨⟨.operator op, priority⟩ :: stack, machine.depth, machine.scale⟩
  | .bottom => ExceptT.lift (throw (.unexpectedToken .bottom))

/-- The guarded pass over a token list; after the last token the mark may be taken. -/
def pass (builder : Builder σ α) (tokens : List Token) : GuardedM σ α := do
  ExceptT.lift ((startRecords tokens).forM note)
  let machine ← tokens.foldlM (step builder) Machine.initial
  ExceptT.lift do
    drain builder machine.stack
    finish builder

section Lifting

variable {β γ : Type}

theorem lift_bind
    (first : PassM σ β) (next : β → PassM σ γ) :
    (ExceptT.lift (first >>= next) : GuardedM σ γ) =
      ExceptT.lift first >>= fun value => ExceptT.lift (next value) := by
  apply ExceptT.ext
  rw [ExceptT.run_bind_lift, ExceptT.run_lift, map_bind]
  rfl

/-- What comes after a computation matters only where the computation ends well. -/
theorem lift_bind_congr
    {first : PassM σ β} {next other : β → GuardedM σ γ}
    (hnext : ∀ value before after,
      first before = .ok value after → next value = other value) :
    (ExceptT.lift first >>= next) = ExceptT.lift first >>= other := by
  apply ExceptT.ext
  rw [ExceptT.run_bind_lift, ExceptT.run_bind_lift]
  funext before
  cases hfirst : first before with
  | ok value after =>
      rw [run_bind_of_ok hfirst, run_bind_of_ok hfirst, hnext value before after hfirst]
  | error error after =>
      rw [run_bind_of_error hfirst, run_bind_of_error hfirst]

end Lifting

variable {builder : Builder σ α} {machine : Machine} {stack : List Entry}

/-- Above the mark there are operators to reduce, down to an open parenthesis. -/
theorem closeGroup_eq_lift
    (hstack : Machine.Marked stack) :
    closeGroup builder stack = ExceptT.lift (Parse.closeGroup builder stack) := by
  obtain ⟨above, rfl, habove⟩ := hstack
  induction above with
  | nil =>
      rfl
  | cons entry above ih =>
      obtain ⟨hentry, hrest⟩ := List.forall_mem_cons.mp habove
      rcases hentry with rfl | ⟨op, priority, rfl⟩
      · rfl
      · have hplain : Parse.closeGroup builder (⟨.operator op, priority⟩ :: above ++ [.bottom]) =
            call builder (.reduce op) >>= fun _ =>
              Parse.closeGroup builder (above ++ [.bottom]) :=
          rfl
        have hguarded : closeGroup builder (⟨.operator op, priority⟩ :: above ++ [.bottom]) =
            ExceptT.lift (call builder (.reduce op)) >>= fun _ =>
              closeGroup builder (above ++ [.bottom]) :=
          rfl
        rw [hguarded, hplain, lift_bind, ih hrest]

/-- An operator has a positive priority, and so an open parenthesis stops it. -/
theorem makeRoom_eq_lift
    {priority : Nat}
    (hstack : Machine.Marked stack) (hpriority : 0 < priority) :
    makeRoom builder priority stack =
      ExceptT.lift (Parse.makeRoom builder priority stack) := by
  obtain ⟨above, rfl, habove⟩ := hstack
  induction above with
  | nil =>
      rfl
  | cons entry above ih =>
      obtain ⟨hentry, hrest⟩ := List.forall_mem_cons.mp habove
      rcases hentry with rfl | ⟨op, waiting, rfl⟩
      · have hstop : Entry.opening.token = .bottom ∨ Entry.opening.priority < priority :=
          Or.inr hpriority
        rw [List.cons_append, makeRoom, Parse.makeRoom, if_pos hstop, if_pos hstop]
        rfl
      · by_cases hstop : waiting < priority
        · have hstop : (⟨.operator op, waiting⟩ : Entry).token = .bottom ∨ waiting < priority :=
            Or.inr hstop
          rw [List.cons_append, makeRoom, Parse.makeRoom, if_pos hstop, if_pos hstop]
          rfl
        · have hgo : ¬((⟨.operator op, waiting⟩ : Entry).token = .bottom ∨
              waiting < priority) := by
            simpa using hstop
          rw [List.cons_append, makeRoom, Parse.makeRoom, if_neg hgo, if_neg hgo, lift_bind,
            ← ih hrest]
          rfl

/-- A group that is closed had its open parenthesis on the stack. -/
theorem openings_pos_of_closeGroup
    {left : List Entry} {before after : Progress σ}
    (hclose : Parse.closeGroup builder stack before = .ok left after) :
    0 < Machine.openings stack := by
  induction stack generalizing before with
  | nil =>
      cases hclose
  | cons entry rest ih =>
      obtain ⟨token, priority⟩ := entry
      cases token with
      | opening =>
          exact List.countP_pos_iff.mpr ⟨_, List.mem_cons_self, rfl⟩
      | operator op =>
          rw [Parse.closeGroup] at hclose
          obtain ⟨_, between, _, hrest⟩ := run_bind_eq_ok.mp hclose
          exact Nat.lt_of_lt_of_le (ih hrest) (List.sublist_cons_self _ _).countP_le
      | closing =>
          cases hclose
      | number value =>
          cases hclose
      | bottom =>
          cases hclose

/-- The scale of the deepest level, and three times as much, fit in 64 bits. -/
theorem mul_scale_lt
    {factor : Nat}
    (hmachine : machine.Sound) (hfactor : factor ≤ 3) :
    factor * machine.scale < 2 ^ 64 := by
  have hscale : machine.scale ≤ 10 ^ 18 := by
    rw [hmachine.scale_eq]
    exact Nat.pow_le_pow_right (by decide) hmachine.depth_le
  calc factor * machine.scale ≤ 3 * 10 ^ 18 := Nat.mul_le_mul hfactor hscale
    _ < 2 ^ 64 := by decide

/-- A token meets no fault. -/
theorem step_eq_lift
    (hmachine : machine.Sound) (token : Token) :
    step builder machine token = ExceptT.lift (Parse.step builder machine token) := by
  cases token with
  | number value =>
      rfl
  | bottom =>
      rfl
  | opening =>
      by_cases hlimit : machine.depth = maxNesting
      · rw [step, Parse.step, if_pos hlimit, if_pos hlimit]
      · have hscale : machine.scale * 10 < 2 ^ 64 := by
          have hdepth : machine.depth + 1 ≤ 18 :=
            Nat.lt_of_le_of_ne hmachine.depth_le hlimit
          rw [hmachine.scale_eq, ← Nat.pow_succ]
          exact Nat.lt_of_le_of_lt (Nat.pow_le_pow_right (by decide) hdepth) (by decide)
        rw [step, Parse.step, if_neg hlimit, if_neg hlimit, product, if_pos hscale, pure_bind]
        rfl
  | closing =>
      rw [step, Parse.step, closeGroup_eq_lift hmachine.marked, lift_bind]
      refine lift_bind_congr fun left before after hclose => ?_
      have hdepth : 1 ≤ machine.depth := by
        rw [hmachine.depth_eq]
        exact openings_pos_of_closeGroup hclose
      have hscale : 10 ∣ machine.scale := by
        rw [hmachine.scale_eq, ← Nat.pow_pred_mul hdepth]
        exact Nat.dvd_mul_left 10 _
      rw [difference, if_pos hdepth, pure_bind, quotient, if_pos hscale, pure_bind]
      rfl
  | operator op =>
      have hproduct := mul_scale_lt hmachine op.rank_le_three
      have hpriority : 0 < op.rank * machine.scale := by
        rw [hmachine.scale_eq]
        exact Nat.mul_pos op.rank_pos (Nat.pow_pos (by decide))
      rw [step, Parse.step, product, if_pos hproduct, pure_bind,
        makeRoom_eq_lift hmachine.marked hpriority, lift_bind]
      simp only [lift_bind]
      rfl

/-- At a scale of one level more, a product would meet one. -/
example :
    (step (Builder.counter none) ⟨[.bottom], 0, 10 ^ 19⟩ (.operator .times)).run ⟨0, []⟩ =
      .ok (.error .overflow) ⟨0, []⟩ := by
  rfl

/-- A list of tokens meets no fault. -/
theorem fold_eq_lift
    (hmachine : machine.IsOf) (tokens : List Token) :
    tokens.foldlM (step builder) machine =
      ExceptT.lift (tokens.foldlM (Parse.step builder) machine) := by
  induction tokens generalizing machine with
  | nil =>
      rfl
  | cons token rest ih =>
      rw [List.foldlM_cons, List.foldlM_cons, lift_bind,
        step_eq_lift (Machine.sound_of_isOf hmachine)]
      refine lift_bind_congr fun next before after hstep => ?_
      exact ih (isOf_step hmachine hstep)

end Guarded

/-- The pass goes on from the point it has reached. -/
theorem pass_eq_machineAfter
    (builder : Builder σ α) (tokens : List Token) (count : Nat) :
    pass builder tokens =
      machineAfter builder tokens count >>= fun machine =>
        (tokens.drop count).foldlM (step builder) machine >>= fun last =>
          drain builder last.stack >>= fun _ => finish builder := by
  have hfold : tokens.foldlM (step builder) Machine.initial =
      (tokens.take count).foldlM (step builder) Machine.initial >>= fun machine =>
        (tokens.drop count).foldlM (step builder) machine := by
    rw [← List.foldlM_append, List.take_append_drop]
  simp only [pass, machineAfter, hfold, bind_assoc]

/-- The machine is one of waiting operators after any of the tokens. -/
theorem isOf_machineAfter
    {builder : Builder σ α} {tokens : List Token} {count : Nat} {machine : Machine}
    {before after : Progress σ}
    (hrun : machineAfter builder tokens count before = .ok machine after) :
    machine.IsOf := by
  rw [machineAfter] at hrun
  obtain ⟨_, between, _, hfold⟩ := run_bind_eq_ok.mp hrun
  exact isOf_run Machine.isOf_initial hfold

/-- Between any two tokens the stack is sound: its mark is at the bottom and nowhere else,
below open parentheses and operators; the depth is the number of open parentheses, at most
18, and the scale that power of ten; the priority of an operator is its rank at the scale of
the open parentheses below it; and priorities rise from the bottom to the top.  So the
guarded pass meets no fault, whatever the tokens and whatever the builder. -/
theorem stack_sound
    (builder : Builder σ α) (tokens : List Token) :
    (∀ count,
      pass builder tokens =
        machineAfter builder tokens count >>= fun machine =>
          (tokens.drop count).foldlM (step builder) machine >>= fun last =>
            drain builder last.stack >>= fun _ => finish builder) ∧
    (∀ count machine before after,
      machineAfter builder tokens count before = .ok machine after → machine.Sound) ∧
    Guarded.pass builder tokens = ExceptT.lift (pass builder tokens) := by
  refine ⟨pass_eq_machineAfter builder tokens, ?_, ?_⟩
  · intro count machine before after hrun
    exact Machine.sound_of_isOf (isOf_machineAfter hrun)
  · rw [Guarded.pass, pass, Guarded.lift_bind,
      Guarded.fold_eq_lift Machine.isOf_initial tokens]
    simp only [Guarded.lift_bind]

/-- After `1 + ( 2 * 3 ^ (` a power waits above a product within the outer group, both at its
scale, and the sum waits around it. -/
theorem stack_sound_within_groups :
    ∃ machine : Machine, ∃ after : Progress Nat,
      machineAfter (Builder.counter none)
          [.number 1, .operator .plus, .opening, .number 2, .operator .times, .number 3,
            .operator .power, .opening, .number 4, .closing, .closing] 8 ⟨0, []⟩ =
        .ok machine after ∧
      machine =
        ⟨[.opening, ⟨.operator .power, 30⟩, ⟨.operator .times, 20⟩, .opening,
          ⟨.operator .plus, 1⟩, .bottom], 2, 100⟩ ∧
      machine.Sound := by
  obtain ⟨_, hsound, _⟩ := stack_sound (Builder.counter none)
    [.number 1, .operator .plus, .opening, .number 2, .operator .times, .number 3,
      .operator .power, .opening, .number 4, .closing, .closing]
  refine ⟨_, _, rfl, rfl, ?_⟩
  exact hsound 8 _ ⟨0, []⟩ _ rfl

end Parse
end InfixCalc
