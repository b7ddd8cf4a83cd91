import InfixCalc.Proofs.Ranks

/-!
# The stack of the pass between two tokens

Between two tokens the stack of the pass holds open parentheses and operators above the
mark at its bottom.  It has as many open parentheses as the depth says, and an operator
has the scale of the open parentheses below it in its priority.  From the bottom to the
top the priorities of operators rise: at a level with their ranks, and from a level to
the next one inside because a rank is less than the ten by which the scale grows.

* `Machine.Sound` : what holds between two tokens.
* `Machine.IsOf` : the machine is that of some operators that wait.
* `Machine.sound_of_isOf`, `isOf_step`, `isOf_run` : it is so at the start, every token
  keeps it, and so it is after any tokens.
-/

namespace InfixCalc
namespace Parse
namespace Machine

/-- The number of open parentheses on a stack. -/
def openings (stack : List Entry) : Nat :=
  stack.countP fun entry => entry.token = .opening

/-- The priorities of the operators on a stack, its top first. -/
def priorities (stack : List Entry) : List Nat :=
  stack.filterMap fun entry =>
    match entry.token with
    | .operator _ => some entry.priority
    | _ => none

/-- An entry of an open parenthesis or of an operator. -/
def IsWaiting (entry : Entry) : Prop :=
  entry = .opening ∨ ∃ op priority, entry = ⟨.operator op, priority⟩

/-- The mark is at the bottom of the stack and nowhere else; all other entries are open
parentheses and operators. -/
def Marked (stack : List Entry) : Prop :=
  ∃ above, stack = above ++ [.bottom] ∧ ∀ entry ∈ above, IsWaiting entry

/-- Every operator has its rank for a priority, at the scale of the open parentheses
below it. -/
def Scaled (stack : List Entry) : Prop :=
  ∀ above op priority below,
    stack = above ++ ⟨.operator op, priority⟩ :: below →
    priority = op.rank * 10 ^ openings below

/-- The priorities of the operators rise strictly from the bottom to the top. -/
def Rising (stack : List Entry) : Prop :=
  (priorities stack).Pairwise fun upper lower => lower < upper

/-- What holds of the pass between two tokens. -/
structure Sound (machine : Machine) : Prop where
  marked : Marked machine.stack
  depth_eq : machine.depth = openings machine.stack
  depth_le : machine.depth ≤ 18
  scale_eq : machine.scale = 10 ^ machine.depth
  scaled : Scaled machine.stack
  rising : Rising machine.stack

/-- The machine is that of operators that wait, in falling ranks at every level. -/
def IsOf (machine : Machine) : Prop :=
  ∃ pending : Pending,
    machine = pending.machine ∧ pending.Descending ∧ pending.depth ≤ maxNesting

section Stacks

variable {entry : Entry} {stack below : List Entry} {waiting : List Operator}
variable {outer : List (List Operator)} {depth : Nat}

theorem Marked.cons
    (hstack : Marked stack) (hentry : IsWaiting entry) :
    Marked (entry :: stack) := by
  obtain ⟨above, rfl, habove⟩ := hstack
  exact ⟨entry :: above, rfl, List.forall_mem_cons.mpr ⟨hentry, habove⟩⟩

theorem Marked.entries
    (hbelow : Marked below) (depth : Nat) (waiting : List Operator) :
    Marked (Pending.entries depth waiting ++ below) := by
  induction waiting with
  | nil =>
      exact hbelow
  | cons op waiting ih =>
      exact ih.cons (Or.inr ⟨op, _, rfl⟩)

theorem marked_foot
    (outer : List (List Operator)) :
    Marked (Pending.foot outer) := by
  induction outer with
  | nil =>
      exact ⟨[], rfl, List.forall_mem_nil _⟩
  | cons level outer ih =>
      exact (ih.entries outer.length level).cons (Or.inl rfl)

@[simp] theorem openings_entries_append
    (depth : Nat) (waiting : List Operator) (below : List Entry) :
    openings (Pending.entries depth waiting ++ below) = openings below := by
  simp [openings, Pending.entries]

@[simp] theorem openings_foot
    (outer : List (List Operator)) :
    openings (Pending.foot outer) = outer.length := by
  induction outer with
  | nil =>
      rfl
  | cons level outer ih =>
      have hopening : openings (.opening :: (Pending.entries outer.length level ++
          Pending.foot outer)) =
            openings (Pending.entries outer.length level ++ Pending.foot outer) + 1 :=
        List.countP_cons_of_pos rfl
      rw [Pending.foot, List.cons_append, hopening, openings_entries_append, ih,
        List.length_cons]

theorem Scaled.cons
    (hstack : Scaled stack)
    (hentry : ∀ op, entry.token = .operator op →
      entry.priority = op.rank * 10 ^ openings stack) :
    Scaled (entry :: stack) := by
  intro above op priority below hsplit
  cases above with
  | nil =>
      injection hsplit with hhead htail
      subst hhead htail
      exact hentry op rfl
  | cons top above =>
      injection hsplit with _ htail
      exact hstack above op priority below htail

theorem Scaled.entries
    (hbelow : Scaled below) (waiting : List Operator) :
    Scaled (Pending.entries (openings below) waiting ++ below) := by
  induction waiting with
  | nil =>
      exact hbelow
  | cons op waiting ih =>
      refine ih.cons ?_
      rintro found ⟨⟩
      rw [openings_entries_append]

theorem scaled_foot
    (outer : List (List Operator)) :
    Scaled (Pending.foot outer) := by
  induction outer with
  | nil =>
      have hnone : Scaled [] := by
        intro above op priority below hsplit
        cases above <;> cases hsplit
      exact hnone.cons fun op hop => by cases hop
  | cons level outer ih =>
      have hlevel := ih.entries level
      rw [openings_foot] at hlevel
      exact hlevel.cons fun op hop => by cases hop

theorem priorities_entries_append
    (depth : Nat) (waiting : List Operator) (below : List Entry) :
    priorities (Pending.entries depth waiting ++ below) =
      waiting.map (fun op => op.rank * 10 ^ depth) ++ priorities below := by
  have hlevel : priorities (Pending.entries depth waiting) =
      waiting.map fun op => op.rank * 10 ^ depth := by
    rw [priorities, Pending.entries, List.filterMap_map]
    exact congrFun List.filterMap_eq_map waiting
  rw [← hlevel]
  exact List.filterMap_append

/-- The operators of one level have its scale, and so they are below ten times as
much. -/
theorem priority_lt_of_mem
    {priority : Nat}
    (hpriority : priority ∈ waiting.map fun op => op.rank * 10 ^ depth) :
    10 ^ depth ≤ priority ∧ priority < 10 ^ (depth + 1) := by
  obtain ⟨op, _, rfl⟩ := List.mem_map.mp hpriority
  have hpositive : 0 < 10 ^ depth := Nat.pow_pos (by decide)
  constructor
  · exact Nat.le_mul_of_pos_left _ op.rank_pos
  · rw [Nat.pow_succ, Nat.mul_comm (10 ^ depth)]
    have hrank := op.rank_le_three
    exact Nat.mul_lt_mul_of_pos_right (by omega) hpositive

/-- The operators further out stay below the scale of the level. -/
theorem priority_lt_of_mem_foot
    (outer : List (List Operator)) :
    ∀ priority ∈ priorities (Pending.foot outer), priority < 10 ^ outer.length := by
  induction outer with
  | nil =>
      exact List.forall_mem_nil _
  | cons level outer ih =>
      intro priority hpriority
      have hcons : priorities (Pending.foot (level :: outer)) =
          priorities (Pending.entries outer.length level ++ Pending.foot outer) :=
        List.filterMap_cons_none rfl
      rw [hcons, priorities_entries_append] at hpriority
      rcases List.mem_append.mp hpriority with hlevel | houter
      · exact (priority_lt_of_mem hlevel).2
      · have hscale : 10 ^ outer.length ≤ 10 ^ (level :: outer).length :=
          Nat.pow_le_pow_right (by decide) (Nat.le_succ _)
        exact Nat.lt_of_lt_of_le (ih priority houter) hscale

theorem rising_entries_append
    (hwaiting : Pending.Descends waiting)
    (houter : Rising (Pending.foot outer)) :
    Rising (Pending.entries outer.length waiting ++ Pending.foot outer) := by
  rw [Rising, priorities_entries_append, List.pairwise_append]
  refine ⟨?_, houter, ?_⟩
  · rw [List.pairwise_map]
    refine hwaiting.imp fun hrank => ?_
    exact Nat.mul_lt_mul_of_pos_right hrank (Nat.pow_pos (by decide))
  · intro upper hupper lower hlower
    exact Nat.lt_of_lt_of_le (priority_lt_of_mem_foot outer lower hlower)
      (priority_lt_of_mem hupper).1

theorem rising_foot
    (houter : ∀ level ∈ outer, Pending.Descends level) :
    Rising (Pending.foot outer) := by
  induction outer with
  | nil =>
      exact List.Pairwise.nil
  | cons level outer ih =>
      obtain ⟨hlevel, hrest⟩ := List.forall_mem_cons.mp houter
      exact rising_entries_append hlevel (ih hrest)

end Stacks

/-- A machine of operators that wait is sound. -/
theorem sound_of_isOf
    {machine : Machine}
    (hmachine : machine.IsOf) :
    machine.Sound := by
  obtain ⟨⟨inner, outer⟩, rfl, hdescending, hdepth⟩ := hmachine
  constructor
  case marked =>
    exact (marked_foot outer).entries outer.length inner
  case depth_eq =>
    simp [Pending.machine, Pending.depth]
  case depth_le =>
    exact hdepth
  case scale_eq =>
    rfl
  case scaled =>
    have hinner := (scaled_foot outer).entries inner
    rw [openings_foot] at hinner
    exact hinner
  case rising =>
    exact rising_entries_append hdescending.inner (rising_foot hdescending.outer)

theorem isOf_initial :
    initial.IsOf := by
  exact ⟨.start, rfl, .start, Nat.zero_le _⟩

end Machine

variable {σ α : Type}

/-- A token leads from one machine of waiting operators to another. -/
theorem isOf_step
    {builder : Builder σ α} {machine next : Machine} {token : Token}
    {before after : Progress σ}
    (hmachine : machine.IsOf)
    (hstep : step builder machine token before = .ok next after) :
    next.IsOf := by
  obtain ⟨⟨inner, outer⟩, rfl, hdescending, hdepth⟩ := hmachine
  cases token with
  | number value =>
      rw [step] at hstep
      obtain ⟨_, _, _, hcall⟩ := run_bind_eq_ok.mp hstep
      obtain ⟨_, _, _, hsame⟩ := run_bind_eq_ok.mp hcall
      cases hsame
      exact ⟨⟨inner, outer⟩, rfl, hdescending, hdepth⟩
  | opening =>
      by_cases hlimit : outer.length = maxNesting
      · have hthrow : step builder (Pending.machine ⟨inner, outer⟩) .opening =
            throw (.nestingTooDeep maxNesting) :=
          if_pos hlimit
        rw [hthrow] at hstep
        cases hstep
      · rw [step_opening builder inner outer hlimit] at hstep
        cases hstep
        refine ⟨_, rfl, hdescending.opening, ?_⟩
        have hless : outer.length ≤ maxNesting := hdepth
        exact Nat.lt_of_le_of_ne hless hlimit
  | closing =>
      cases outer with
      | nil =>
          rw [step_closing_unmatched] at hstep
          obtain ⟨_, _, _, hthrow⟩ := run_bind_eq_ok.mp hstep
          cases hthrow
      | cons level outer =>
          rw [step_closing] at hstep
          obtain ⟨_, _, _, hnext⟩ := run_bind_eq_ok.mp hstep
          cases hnext
          exact ⟨_, rfl, hdescending.closing, Nat.le_of_succ_le hdepth⟩
  | operator op =>
      rw [step_operator] at hstep
      obtain ⟨_, _, _, hnext⟩ := run_bind_eq_ok.mp hstep
      cases hnext
      exact ⟨_, rfl, hdescending.operator op, hdepth⟩
  | bottom =>
      cases hstep

/-- So do any tokens. -/
theorem isOf_run
    {builder : Builder σ α} {tokens : List Token} {machine last : Machine}
    {before after : Progress σ}
    (hmachine : machine.IsOf)
    (hrun : tokens.foldlM (step builder) machine before = .ok last after) :
    last.IsOf := by
  induction tokens generalizing machine before with
  | nil =>
      cases hrun
      exact hmachine
  | cons token rest ih =>
      rw [List.foldlM_cons] at hrun
      obtain ⟨next, between, hstep, hrest⟩ := run_bind_eq_ok.mp hrun
      exact ih (isOf_step hmachine hstep) hrest

end Parse
end InfixCalc
