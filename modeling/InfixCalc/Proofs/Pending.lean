import InfixCalc.Proofs.Performance
import Mathlib.Algebra.Ring.Nat

/-!
# The pass without priorities

Between two tokens the pass has a list of operators that wait at every open
level: those inside the innermost open parenthesis, those around it, and so
on.  An operator is only ever compared with operators of its own level, so
ranks decide what priorities decide on the stack of the pass.  What the pass
then does of its own accord depends neither on priorities nor on the builder.

* `Pending.actions` : the actions of the pass on the tokens that are left.
* `bracketError?` : the error of a scan of the parentheses alone.
* `pass_eq_playAll` : the pass performs its actions, and then ends with the
  error of the scan or asks the builder for what it built.
* `run_result`, `run_events` : what a run comes to, said with these.
-/

namespace InfixCalc
namespace Parse

/-- The operators that wait, at every level the last one first, and the levels
from the inside out. -/
structure Pending where
  inner : List Operator
  outer : List (List Operator)

namespace Pending

/-- Nothing waits before the first token. -/
def start : Pending :=
  ⟨[], []⟩

/-- The number of open parentheses. -/
def depth (pending : Pending) : Nat :=
  pending.outer.length

/-- The waiting operators that `op` reduces: those on top that bind at least
as tightly. -/
def giving (op : Operator) (waiting : List Operator) : List Operator :=
  waiting.takeWhile fun earlier => op.rank ≤ earlier.rank

/-- The waiting operators that `op` leaves. -/
def staying (op : Operator) (waiting : List Operator) : List Operator :=
  waiting.dropWhile fun earlier => op.rank ≤ earlier.rank

theorem giving_append_staying
    (op : Operator) (waiting : List Operator) :
    giving op waiting ++ staying op waiting = waiting := by
  exact List.takeWhile_append_dropWhile

section Cons

variable {op earlier : Operator}

theorem giving_cons_of_le
    (hrank : op.rank ≤ earlier.rank) (waiting : List Operator) :
    giving op (earlier :: waiting) = earlier :: giving op waiting := by
  exact List.takeWhile_cons_of_pos (by simpa using hrank)

theorem staying_cons_of_le
    (hrank : op.rank ≤ earlier.rank) (waiting : List Operator) :
    staying op (earlier :: waiting) = staying op waiting := by
  exact List.dropWhile_cons_of_pos (by simpa using hrank)

theorem giving_cons_of_lt
    (hrank : earlier.rank < op.rank) (waiting : List Operator) :
    giving op (earlier :: waiting) = [] := by
  exact List.takeWhile_cons_of_neg (by simpa using hrank)

theorem staying_cons_of_lt
    (hrank : earlier.rank < op.rank) (waiting : List Operator) :
    staying op (earlier :: waiting) = earlier :: waiting := by
  exact List.dropWhile_cons_of_neg (by simpa using hrank)

end Cons

/-- An operator takes what binds at least as tightly from the top, down to the
operators that bind looser. -/
theorem giving_append
    {op : Operator} {above below : List Operator}
    (habove : ∀ earlier ∈ above, op.rank ≤ earlier.rank)
    (hbelow : ∀ earlier ∈ below, earlier.rank < op.rank) :
    giving op (above ++ below) = above := by
  induction above with
  | nil =>
      cases below with
      | nil =>
          rfl
      | cons earlier below =>
          exact giving_cons_of_lt (hbelow earlier List.mem_cons_self) below
  | cons earlier above ih =>
      have hrest := ih fun later hlater => habove later (List.mem_cons_of_mem _ hlater)
      rw [List.cons_append, giving_cons_of_le (habove earlier List.mem_cons_self), hrest]

theorem staying_append
    {op : Operator} {above below : List Operator}
    (habove : ∀ earlier ∈ above, op.rank ≤ earlier.rank)
    (hbelow : ∀ earlier ∈ below, earlier.rank < op.rank) :
    staying op (above ++ below) = below := by
  have hsplit := giving_append_staying op (above ++ below)
  rw [giving_append habove hbelow] at hsplit
  exact List.append_cancel_left hsplit

/-- The reductions of operators while tokens are being read. -/
def reductions (operators : List Operator) : List Call :=
  operators.map .reduce

/-- The reductions of operators after the last token. -/
def trailingReductions (operators : List Operator) : List Call :=
  operators.map .reduceTrailing

/-- The actions of the pass on the tokens that are left. -/
def actions : Pending → List Token → List Action
  | ⟨inner, []⟩, [] =>
      (trailingReductions inner).map .call
  | ⟨inner, _ :: _⟩, [] =>
      (trailingReductions inner).map .call ++ [.note unclosedRecord]
  | pending, .number value :: rest =>
      .note (operandRecord value) :: .call (.operand value) :: pending.actions rest
  | ⟨inner, outer⟩, .opening :: rest =>
      if outer.length = maxNesting then
        []
      else
        actions ⟨[], inner :: outer⟩ rest
  | ⟨inner, []⟩, .closing :: _ =>
      (reductions inner).map .call ++ [.note unmatchedRecord]
  | ⟨inner, level :: outer⟩, .closing :: rest =>
      (reductions inner).map .call ++ actions ⟨level, outer⟩ rest
  | ⟨inner, outer⟩, .operator op :: rest =>
      (reductions (giving op inner)).map .call ++
        .note (pushRecord op (op.rank * 10 ^ outer.length)) ::
          actions ⟨op :: staying op inner, outer⟩ rest
  | _, .bottom :: _ => []

/-- The entries of operators that wait at a depth. -/
def entries (depth : Nat) (waiting : List Operator) : List Entry :=
  waiting.map fun op => ⟨.operator op, op.rank * 10 ^ depth⟩

/-- The stack of the pass below the innermost level: an open parenthesis
between two levels, and the bottom. -/
def foot : List (List Operator) → List Entry
  | [] => [.bottom]
  | level :: outer => .opening :: entries outer.length level ++ foot outer

/-- The state of the pass. -/
def machine (pending : Pending) : Machine :=
  ⟨entries pending.depth pending.inner ++ foot pending.outer,
    pending.depth, 10 ^ pending.depth⟩

end Pending

/-- The first offence of a scan that only counts open parentheses. -/
def bracketError? : Nat → List Token → Option ParseError
  | 0, [] => none
  | _ + 1, [] => some .unbalancedParenthesis
  | depth, .opening :: rest =>
      if depth = maxNesting then
        some (.nestingTooDeep maxNesting)
      else
        bracketError? (depth + 1) rest
  | 0, .closing :: _ => some .unbalancedParenthesis
  | depth + 1, .closing :: rest => bracketError? depth rest
  | _, .bottom :: _ => some (.unexpectedToken .bottom)
  | depth, .number _ :: rest => bracketError? depth rest
  | depth, .operator _ :: rest => bracketError? depth rest

variable {σ α : Type}

/-- The end of a pass: its own error, or what the builder built. -/
def conclude
    (builder : Builder σ α) : Option ParseError → PassM σ α
  | some error => throw error
  | none => finish builder

theorem closeGroup_entries
    (builder : Builder σ α)
    (depth : Nat) (waiting : List Operator) (below : List Entry) :
    closeGroup builder (Pending.entries depth waiting ++ below) =
      playAll builder ((Pending.reductions waiting).map .call) >>= fun _ =>
        closeGroup builder below := by
  induction waiting with
  | nil =>
      simp [Pending.entries, Pending.reductions, playAll_nil]
  | cons op waiting ih =>
      simp only [Pending.entries, Pending.reductions, List.map_cons, List.cons_append] at ih ⊢
      rw [closeGroup, playAll_cons, bind_assoc]
      simp only [ih]
      rfl

theorem drain_entries
    (builder : Builder σ α)
    (depth : Nat) (waiting : List Operator) (below : List Entry) :
    drain builder (Pending.entries depth waiting ++ below) =
      playAll builder ((Pending.trailingReductions waiting).map .call) >>= fun _ =>
        drain builder below := by
  induction waiting with
  | nil =>
      simp [Pending.entries, Pending.trailingReductions, playAll_nil]
  | cons op waiting ih =>
      simp only [Pending.entries, Pending.trailingReductions, List.map_cons,
        List.cons_append] at ih ⊢
      rw [drain, playAll_cons, bind_assoc]
      simp only [ih]
      rfl

/-- Operators of one level have the same scale, so their ranks are compared. -/
theorem makeRoom_entries
    (builder : Builder σ α)
    (depth : Nat) (op : Operator) (waiting : List Operator)
    {base : Entry} (hbase : base.priority = 0) (below : List Entry) :
    makeRoom builder (op.rank * 10 ^ depth)
        (Pending.entries depth waiting ++ base :: below) =
      playAll builder ((Pending.reductions (Pending.giving op waiting)).map .call) >>= fun _ =>
        pure (Pending.entries depth (Pending.staying op waiting) ++ base :: below) := by
  have hscale : 0 < 10 ^ depth := Nat.pow_pos (by decide)
  induction waiting with
  | nil =>
      have hlow : base.priority < op.rank * 10 ^ depth := by
        rw [hbase]
        exact Nat.mul_pos op.rank_pos hscale
      simp [Pending.entries, Pending.giving, Pending.staying, Pending.reductions,
        playAll_nil, makeRoom, hlow]
  | cons earlier waiting ih =>
      by_cases hrank : op.rank ≤ earlier.rank
      · have hkeep : ¬ earlier.rank * 10 ^ depth < op.rank * 10 ^ depth :=
          Nat.not_lt.mpr (Nat.mul_le_mul_right _ hrank)
        have hroom :
            makeRoom builder (op.rank * 10 ^ depth)
                (Pending.entries depth (earlier :: waiting) ++ base :: below) =
              call builder (.reduce earlier) >>= fun _ =>
                makeRoom builder (op.rank * 10 ^ depth)
                  (Pending.entries depth waiting ++ base :: below) :=
          if_neg (by simpa using hkeep)
        rw [hroom, ih, Pending.giving_cons_of_le hrank, Pending.staying_cons_of_le hrank]
        exact (bind_assoc _ _ _).symm
      · have hlower := Nat.not_le.mp hrank
        have hlow : earlier.rank * 10 ^ depth < op.rank * 10 ^ depth :=
          Nat.mul_lt_mul_of_pos_right hlower hscale
        have hroom :
            makeRoom builder (op.rank * 10 ^ depth)
                (Pending.entries depth (earlier :: waiting) ++ base :: below) =
              pure (Pending.entries depth (earlier :: waiting) ++ base :: below) :=
          if_pos (Or.inr hlow)
        rw [hroom, Pending.giving_cons_of_lt hlower, Pending.staying_cons_of_lt hlower]
        rfl

theorem foot_eq_cons
    (outer : List (List Operator)) :
    ∃ base below,
      Pending.foot outer = base :: below ∧ base.priority = 0 := by
  cases outer with
  | nil =>
      exact ⟨.bottom, [], rfl, rfl⟩
  | cons level outer =>
      exact ⟨.opening, _, rfl, rfl⟩

theorem step_opening
    (builder : Builder σ α)
    (inner : List Operator) (outer : List (List Operator))
    (hdepth : outer.length ≠ maxNesting) :
    step builder (Pending.machine ⟨inner, outer⟩) .opening =
      pure (Pending.machine ⟨[], inner :: outer⟩) := by
  simp [step, Pending.machine, Pending.depth, Pending.entries, Pending.foot, hdepth,
    Nat.pow_succ]

theorem step_closing_unmatched
    (builder : Builder σ α)
    (inner : List Operator) :
    step builder (Pending.machine ⟨inner, []⟩) .closing =
      playAll builder ((Pending.reductions inner).map .call ++ [.note unmatchedRecord]) >>=
        fun _ => throw .unbalancedParenthesis := by
  simp only [step, Pending.machine, closeGroup_entries, playAll_append, bind_assoc]
  rfl

theorem step_closing
    (builder : Builder σ α)
    (inner level : List Operator) (outer : List (List Operator)) :
    step builder (Pending.machine ⟨inner, level :: outer⟩) .closing =
      playAll builder ((Pending.reductions inner).map .call) >>= fun _ =>
        pure (Pending.machine ⟨level, outer⟩) := by
  simp [step, Pending.machine, Pending.depth, Pending.foot, closeGroup_entries, closeGroup,
    Entry.opening, Nat.pow_succ]

theorem step_operator
    (builder : Builder σ α)
    (op : Operator) (inner : List Operator) (outer : List (List Operator)) :
    step builder (Pending.machine ⟨inner, outer⟩) (.operator op) =
      playAll builder
          ((Pending.reductions (Pending.giving op inner)).map .call ++
            [.note (pushRecord op (op.rank * 10 ^ outer.length))]) >>= fun _ =>
        pure (Pending.machine ⟨op :: Pending.staying op inner, outer⟩) := by
  obtain ⟨base, below, hfoot, hbase⟩ := foot_eq_cons outer
  simp only [step, Pending.machine, Pending.depth, hfoot]
  rw [makeRoom_entries builder outer.length op inner hbase below, playAll_append]
  simp [playAll_cons, playAll_nil, play, Pending.entries]

/-- From any state the pass performs its actions on the tokens that are left,
and then concludes with the error of the scan, if there is one. -/
theorem rest_eq_playAll
    (builder : Builder σ α)
    (tokens : List Token) (pending : Pending) :
    (tokens.foldlM (step builder) pending.machine >>= fun machine =>
        drain builder machine.stack >>= fun _ => finish builder) =
      playAll builder (pending.actions tokens) >>= fun _ =>
        conclude builder (bracketError? pending.depth tokens) := by
  induction tokens generalizing pending with
  | nil =>
      obtain ⟨inner, outer⟩ := pending
      rw [List.foldlM_nil, pure_bind, Pending.machine, drain_entries]
      cases outer with
      | nil =>
          simp [Pending.foot, drain, Pending.actions, bracketError?, Pending.depth, conclude,
            Entry.bottom]
      | cons level outer =>
          rw [Pending.actions, playAll_append, bind_assoc, bind_assoc]
          rfl
  | cons token rest ih =>
      obtain ⟨inner, outer⟩ := pending
      rw [List.foldlM_cons, bind_assoc]
      cases token with
      | number value =>
          rw [Pending.actions, bracketError?, playAll_cons, playAll_cons]
          simp only [bind_assoc, ← ih]
          rfl
      | opening =>
          by_cases hdepth : outer.length = maxNesting
          · simp [step, Pending.machine, Pending.depth, Pending.actions, bracketError?, hdepth,
              playAll_nil, conclude]
            rfl
          · rw [step_opening builder inner outer hdepth, pure_bind, ih]
            simp [Pending.actions, bracketError?, Pending.depth, hdepth]
      | closing =>
          cases outer with
          | nil =>
              rw [step_closing_unmatched, bind_assoc, Pending.actions]
              rfl
          | cons level outer =>
              rw [step_closing, bind_assoc, Pending.actions, playAll_append, bind_assoc]
              simp only [pure_bind, ih]
              rfl
      | operator op =>
          rw [step_operator, Pending.actions, bracketError?, playAll_append, playAll_append,
            playAll_cons]
          simp only [bind_assoc, pure_bind, ih]
          rfl
      | bottom =>
          rw [Pending.actions, bracketError?]
          rfl

namespace Pending

/-- The calls of the pass on the tokens that are left. -/
def calls (pending : Pending) (tokens : List Token) : List Call :=
  Action.calls (pending.actions tokens)

attribute [local simp] calls actions

@[simp] theorem calls_nil
    (inner : List Operator) (outer : List (List Operator)) :
    calls ⟨inner, outer⟩ [] = trailingReductions inner := by
  cases outer with
  | nil =>
      simp
  | cons level outer =>
      simp

@[simp] theorem calls_number
    (pending : Pending) (value : Value) (rest : List Token) :
    pending.calls (.number value :: rest) = .operand value :: pending.calls rest := by
  simp

theorem calls_opening
    (inner : List Operator) (outer : List (List Operator)) (rest : List Token) :
    calls ⟨inner, outer⟩ (.opening :: rest) =
      if outer.length = maxNesting then [] else calls ⟨[], inner :: outer⟩ rest := by
  unfold calls
  rw [actions]
  split
  · rfl
  · rfl

@[simp] theorem calls_closing_unmatched
    (inner : List Operator) (rest : List Token) :
    calls ⟨inner, []⟩ (.closing :: rest) = reductions inner := by
  simp

@[simp] theorem calls_closing
    (inner level : List Operator) (outer : List (List Operator)) (rest : List Token) :
    calls ⟨inner, level :: outer⟩ (.closing :: rest) =
      reductions inner ++ calls ⟨level, outer⟩ rest := by
  simp

@[simp] theorem calls_operator
    (op : Operator) (inner : List Operator) (outer : List (List Operator))
    (rest : List Token) :
    calls ⟨inner, outer⟩ (.operator op :: rest) =
      reductions (giving op inner) ++ calls ⟨op :: staying op inner, outer⟩ rest := by
  simp

@[simp] theorem calls_bottom
    (pending : Pending) (rest : List Token) :
    pending.calls (.bottom :: rest) = [] := by
  simp

end Pending

/-- The records that the pass writes itself are no warnings. -/
theorem Pending.level_of_mem_actions
    {pending : Pending} {tokens : List Token} {record : Record}
    (hrecord : .note record ∈ pending.actions tokens) :
    record.level ≠ .warn := by
  induction tokens generalizing pending with
  | nil =>
      obtain ⟨inner, outer⟩ := pending
      cases outer with
      | nil =>
          simp [Pending.actions] at hrecord
      | cons level outer =>
          simp [Pending.actions] at hrecord
          simp [hrecord, unclosedRecord]
  | cons token rest ih =>
      obtain ⟨inner, outer⟩ := pending
      cases token with
      | number value =>
          simp [Pending.actions] at hrecord
          rcases hrecord with hoperand | hlater
          · simp [hoperand, operandRecord]
          · exact ih hlater
      | opening =>
          rw [Pending.actions] at hrecord
          split at hrecord
          next hdepth =>
              cases hrecord
          next hdepth =>
              exact ih hrecord
      | closing =>
          cases outer with
          | nil =>
              simp [Pending.actions] at hrecord
              simp [hrecord, unmatchedRecord]
          | cons level outer =>
              simp [Pending.actions] at hrecord
              exact ih hrecord
      | operator op =>
          simp [Pending.actions] at hrecord
          rcases hrecord with hpush | hlater
          · simp [hpush, pushRecord]
          · exact ih hlater
      | bottom =>
          simp [Pending.actions] at hrecord

/-- The actions of a whole pass. -/
def passActions (tokens : List Token) : List Action :=
  (startRecords tokens).map .note ++ Pending.start.actions tokens

theorem calls_passActions
    (tokens : List Token) :
    Action.calls (passActions tokens) = Pending.start.calls tokens := by
  simp [passActions, startRecords, Pending.calls]

theorem level_of_mem_passActions
    {tokens : List Token} {record : Record}
    (hrecord : .note record ∈ passActions tokens) :
    record.level ≠ .warn := by
  rcases List.mem_append.mp hrecord with hstart | hlater
  · simp [startRecords] at hstart
    rcases hstart with rfl | rfl
    · simp
    · simp
  · exact Pending.level_of_mem_actions hlater

/-- The pass performs its actions and concludes. -/
theorem pass_eq_playAll
    (builder : Builder σ α) (tokens : List Token) :
    pass builder tokens =
      playAll builder (passActions tokens) >>= fun _ =>
        conclude builder (bracketError? 0 tokens) := by
  have hrest := rest_eq_playAll builder tokens .start
  rw [passActions, playAll_append, bind_assoc]
  change _ = _ >>= fun _ =>
    playAll builder (Pending.start.actions tokens) >>= fun _ =>
      conclude builder (bracketError? Pending.start.depth tokens)
  rw [← hrest]
  rfl

/-- The run of a pass on a fresh builder. -/
def Run.ofPass
    (builder : Builder σ α) (pass : PassM σ α) : Run α :=
  match pass ⟨builder.initial, []⟩ with
  | .ok built progress => ⟨.ok built, progress.events.reverse⟩
  | .error error progress => ⟨.error error, progress.events.reverse⟩

/-- A pass that performs actions and concludes has the error of the first call
that is refused, or else its own error, or else the result of the builder. -/
theorem Run.result_ofPass
    (builder : Builder σ α) (actions : List Action) (error? : Option ParseError) :
    (Run.ofPass builder
        (playAll builder actions >>= fun _ => conclude builder error?)).result =
      builder.attemptAll builder.initial (Action.calls actions) >>= fun state =>
        match error? with
        | some error => .error error
        | none => (builder.finish state).result := by
  unfold Run.ofPass
  cases hcalls : builder.attemptAll builder.initial (Action.calls actions) with
  | error error =>
      obtain ⟨after, hplay⟩ := playAll_of_error hcalls []
      rw [run_bind_of_error hplay]
      rfl
  | ok state =>
      rw [run_bind_of_ok (playAll_of_ok hcalls [])]
      cases error? with
      | some error =>
          rfl
      | none =>
          cases hfinish : (builder.finish state).result with
          | ok built =>
              simp [conclude, finish, hfinish]
          | error error =>
              simp [conclude, finish, hfinish]

/-- The events of such a pass are those of its actions, and then, if nothing
went wrong, those of the builder's last answer. -/
theorem Run.events_ofPass
    (builder : Builder σ α) (actions : List Action) (error? : Option ParseError) :
    (Run.ofPass builder
        (playAll builder actions >>= fun _ => conclude builder error?)).events =
      builder.eventsOf builder.initial actions ++
        match builder.attemptAll builder.initial (Action.calls actions), error? with
        | .ok state, none => .finish :: (builder.finish state).records.map .note
        | _, _ => [] := by
  unfold Run.ofPass
  cases hcalls : builder.attemptAll builder.initial (Action.calls actions) with
  | error error =>
      obtain ⟨after, hplay⟩ := playAll_of_error hcalls []
      rw [run_bind_of_error hplay]
      simp
  | ok state =>
      rw [run_bind_of_ok (playAll_of_ok hcalls [])]
      cases error? with
      | some error =>
          have hends : ∀ progress : Progress σ,
              conclude builder (some error) progress = .error error progress :=
            fun _ => rfl
          simp [hends]
      | none =>
          cases hfinish : (builder.finish state).result with
          | ok built =>
              simp [conclude, finish, hfinish]
          | error error =>
              simp [conclude, finish, hfinish]

theorem run_eq_ofPass
    (builder : Builder σ α) (tokens : List Token) :
    run builder tokens =
      Run.ofPass builder
        (playAll builder (passActions tokens) >>= fun _ =>
          conclude builder (bracketError? 0 tokens)) := by
  rw [← pass_eq_playAll]
  rfl

theorem run_result
    (builder : Builder σ α) (tokens : List Token) :
    (run builder tokens).result =
      builder.attemptAll builder.initial (Pending.start.calls tokens) >>= fun state =>
        match bracketError? 0 tokens with
        | some error => .error error
        | none => (builder.finish state).result := by
  rw [run_eq_ofPass, Run.result_ofPass, calls_passActions]

theorem run_events
    (builder : Builder σ α) (tokens : List Token) :
    (run builder tokens).events =
      builder.eventsOf builder.initial (passActions tokens) ++
        match builder.attemptAll builder.initial (Pending.start.calls tokens),
            bracketError? 0 tokens with
        | .ok state, none => .finish :: (builder.finish state).records.map .note
        | _, _ => [] := by
  rw [run_eq_ofPass, Run.events_ofPass, calls_passActions]

theorem mem_records
    {run : Run α} {record : Record} :
    record ∈ run.records ↔ .note record ∈ run.events := by
  rw [Run.records, List.mem_filterMap]
  constructor
  · rintro ⟨event, hevent, hnote⟩
    cases event with
    | note written =>
        cases hnote
        exact hevent
    | call made =>
        cases hnote
    | finish =>
        cases hnote
  · intro hevent
    exact ⟨_, hevent, rfl⟩

end Parse
end InfixCalc
