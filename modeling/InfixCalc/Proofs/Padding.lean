import InfixCalc.Proofs.Replay

/-!
# Operands that are taken to be zero

The tree builder writes a record for every operand that it takes to be zero, and so
the records of calls tell how many there were.  Their number follows from how many
subtrees there are before and after the calls, and in the forest the zeros come first.

* `TreeBuilder.zerosIn` : how many operands records tell to be taken to be zero.
* `TreeBuilder.forest_of_replies` : the forest after calls that are not refused.
* `TreeBuilder.zerosIn_run` : what a run tells is what the answers to its calls tell.
-/

namespace InfixCalc
namespace Parse

namespace Builder

variable {σ α : Type}

/-- The records that are written for calls, refused or not. -/
def recordsOf
    (builder : Builder σ α) (state : σ) (calls : List Call) : List Record :=
  (builder.replies state calls).flatMap Reply.records

@[simp] theorem recordsOf_nil
    (builder : Builder σ α) (state : σ) :
    builder.recordsOf state [] = [] := by
  rfl

theorem recordsOf_cons
    (builder : Builder σ α) (state : σ) (call : Call) (rest : List Call) :
    builder.recordsOf state (call :: rest) =
      (builder.perform call state).records ++
        builder.recordsOf (builder.perform call state).state rest := by
  rfl

end Builder

namespace TreeBuilder

/-- Whether a record tells that an operand is taken to be zero. -/
def isPadding (record : Record) : Bool :=
  Operator.all.any fun op => record = paddingRecord op

/-- How many operands records tell to be taken to be zero. -/
def zerosIn (records : List Record) : Nat :=
  records.countP isPadding

@[simp] theorem zerosIn_nil :
    zerosIn [] = 0 := by
  rfl

@[simp] theorem zerosIn_append
    (first second : List Record) :
    zerosIn (first ++ second) = zerosIn first + zerosIn second := by
  exact List.countP_append

@[simp] theorem isPadding_paddingRecord
    (op : Operator) :
    isPadding (paddingRecord op) = true := by
  rw [isPadding, List.any_eq_true]
  exact ⟨op, op.mem_all, by simp⟩

theorem isPadding_eq_false
    {record : Record}
    (hlevel : record.level ≠ .warn) :
    isPadding record = false := by
  rw [isPadding, List.any_eq_false]
  intro op _ hrecord
  rw [of_decide_eq_true hrecord] at hlevel
  exact hlevel rfl

theorem zerosIn_eq_zero
    {records : List Record}
    (hlevel : ∀ record ∈ records, record.level ≠ .warn) :
    zerosIn records = 0 := by
  rw [zerosIn, List.countP_eq_zero]
  intro record hrecord hpadding
  rw [isPadding_eq_false (hlevel record hrecord)] at hpadding
  cases hpadding

/-- Combining two subtrees adds no zeros to those that were needed for them. -/
theorem zerosIn_combine
    (op : Operator) (left right : Subtree) (below : List Subtree) (earlier : List Record) :
    zerosIn (combine op left right below earlier).records = zerosIn earlier := by
  unfold combine
  by_cases hlevels : maxLevels < 1 + max left.levels right.levels
  · simp only [hlevels, if_true, zerosIn_append, Nat.add_eq_left]
    exact zerosIn_eq_zero (by simp)
  · simp only [hlevels, if_false, zerosIn_append, Nat.add_eq_left]
    exact zerosIn_eq_zero (by simp)

/-- The records for a call tell how many operands it misses and takes to be zero. -/
theorem zerosIn_perform
    (call : Call) (subtrees : List Subtree) :
    zerosIn (treeBuilder.perform call subtrees).records = padding call subtrees := by
  cases call with
  | operand value =>
      rfl
  | reduce op =>
      match subtrees with
      | [] =>
          rfl
      | [_] =>
          rfl
      | right :: left :: below =>
          exact zerosIn_combine op left right below []
  | reduceTrailing op =>
      match subtrees with
      | [] =>
          refine (zerosIn_combine op (.leaf 0) (.leaf 0) []
            [paddingRecord op, paddingRecord op]).trans ?_
          simp [zerosIn, padding]
      | [right] =>
          refine (zerosIn_combine op (.leaf 0) right [] [paddingRecord op]).trans ?_
          simp [zerosIn, padding]
      | right :: left :: below =>
          refine (zerosIn_combine op left right below []).trans ?_
          simp [padding]

/-- The number of zeros makes up for the subtrees that calls leave too many. -/
theorem length_of_replies
    {calls : List Call} {before after : List Subtree}
    (hok : treeBuilder.attemptAll before calls = .ok after) :
    after.length + (Token.operators (Call.tokens calls)).length =
      before.length + (Token.values (Call.tokens calls)).length +
        zerosIn (treeBuilder.recordsOf before calls) := by
  induction calls generalizing before with
  | nil =>
      cases hok
      simp
  | cons call rest ih =>
      rw [Builder.attemptAll_cons] at hok
      obtain ⟨next, hcall, hrest⟩ := bind_eq_ok.mp hok
      have hlength := (forest_of_attempt hcall).2
      have hlengthRest := ih hrest
      obtain ⟨_, rfl⟩ := Builder.attempt_eq_ok hcall
      have htokens : Call.tokens (call :: rest) = [call.token] ++ Call.tokens rest := by
        rfl
      rw [htokens, Token.operators_append, Token.values_append, List.length_append,
        List.length_append, Builder.recordsOf_cons, zerosIn_append, zerosIn_perform]
      omega

/-- The forest after calls that are not refused: as many zeros as their records tell,
the forest before them, and the tokens of the calls. -/
theorem forest_of_replies
    {calls : List Call} {before after : List Subtree}
    (hok : treeBuilder.attemptAll before calls = .ok after) :
    forest after =
      List.replicate (zerosIn (treeBuilder.recordsOf before calls)) (.number 0) ++
        forest before ++ Call.tokens calls := by
  obtain ⟨count, hforest, hlength, _⟩ := forest_of_attemptAll hok
  have hzeros := length_of_replies hok
  obtain rfl : count = zerosIn (treeBuilder.recordsOf before calls) := by
    omega
  exact hforest

/-- Of the events of actions, only the answers to calls tell of zeros. -/
theorem zerosIn_eventsOf
    {actions : List Action} (subtrees : List Subtree)
    (hnotes : ∀ record, .note record ∈ actions → record.level ≠ .warn) :
    zerosIn ((treeBuilder.eventsOf subtrees actions).filterMap Event.record?) =
      zerosIn (treeBuilder.recordsOf subtrees
        (treeBuilder.made subtrees (Action.calls actions))) := by
  have hrecords : ∀ records : List Record,
      (records.map Event.note).filterMap Event.record? = records := by
    intro records
    rw [List.filterMap_map]
    exact List.filterMap_some
  induction actions generalizing subtrees with
  | nil =>
      rfl
  | cons action rest ih =>
      have hnotesRest : ∀ record, .note record ∈ rest → record.level ≠ .warn := by
        intro record hrecord
        exact hnotes record (List.mem_cons_of_mem _ hrecord)
      cases action with
      | note record =>
          have hnote : isPadding record = false :=
            isPadding_eq_false (hnotes record List.mem_cons_self)
          have hcons : zerosIn (record ::
              (treeBuilder.eventsOf subtrees rest).filterMap Event.record?) =
                zerosIn ((treeBuilder.eventsOf subtrees rest).filterMap Event.record?) :=
            List.countP_cons_of_neg (by simp [hnote])
          exact hcons.trans (ih subtrees hnotesRest)
      | call made =>
          rw [Builder.eventsOf, List.cons_append, List.filterMap_cons_none rfl,
            List.filterMap_append, hrecords, Action.calls_cons_call]
          cases hcall : treeBuilder.attempt subtrees made with
          | ok after =>
              obtain ⟨_, hafter⟩ := Builder.attempt_eq_ok hcall
              rw [Builder.made_cons_of_ok hcall, Builder.recordsOf_cons, hafter,
                zerosIn_append, zerosIn_append, ih after hnotesRest]
          | error error =>
              rw [Builder.made_cons_of_error hcall, Builder.recordsOf_cons,
                zerosIn_append, zerosIn_append]
              rfl

/-- A surplus of operands is no zero. -/
theorem zerosIn_finish
    (subtrees : List Subtree) :
    zerosIn (finish subtrees).records = 0 := by
  match subtrees with
  | [] =>
      rfl
  | [_] =>
      rfl
  | root :: next :: below =>
      rw [zerosIn, List.countP_eq_zero]
      intro record hrecord hpadding
      obtain ⟨op, _, hop⟩ := List.any_eq_true.mp hpadding
      rw [of_decide_eq_true hop] at hrecord
      -- the two warnings differ in their first letter
      have hmessage := congrArg (fun found => found.message.head?) (List.mem_singleton.mp hrecord)
      simp [paddingRecord] at hmessage

/-- The records of a run tell of as many zeros as the answers to its calls. -/
theorem zerosIn_run
    (tokens : List Token) :
    zerosIn (treeRun tokens).records =
      zerosIn (treeBuilder.recordsOf treeBuilder.initial (treeRun tokens).calls) := by
  have hearly := zerosIn_eventsOf treeBuilder.initial
    (fun record => @level_of_mem_passActions tokens record)
  rw [calls_passActions] at hearly
  rw [treeRun, calls_run, Run.records, run_events, List.filterMap_append, zerosIn_append, hearly,
    Nat.add_eq_left]
  cases treeBuilder.attemptAll treeBuilder.initial (Pending.start.calls tokens) with
  | error error =>
      rfl
  | ok subtrees =>
      cases bracketError? 0 tokens with
      | some error =>
          rfl
      | none =>
          have hlast := zerosIn_finish subtrees
          rw [List.filterMap_cons_none rfl, List.filterMap_map]
          exact (congrArg zerosIn List.filterMap_some).trans hlast

end TreeBuilder
end Parse
end InfixCalc
