import InfixCalc.Proofs.Requests

/-!
# The pass by ranks

The reference pass knows nothing of scales: its stack holds bare tokens, an
operator reduces the operators on top that rank at least as high, down to an
open parenthesis or the bottom, and how deep it is follows from the open
parentheses on the stack.  Folding the depth into priorities changes nothing
that a builder could notice.

* `RankPass.run` : the reference pass.
* `RankPass.pass_eq_playAll` : it performs the calls of the pass with
  priorities, and concludes in the same way.
* `run_eq_rankPass` : the two passes have the same result and make the same
  requests, on every builder.
-/

namespace InfixCalc
namespace Parse
namespace RankPass

variable {σ α : Type}

/-- Reduces the operators on top that rank at least `rank`. -/
def makeRoom
    (builder : Builder σ α) (rank : Nat) : List Token → PassM σ (List Token)
  | .operator op :: rest =>
    if rank ≤ op.rank then do
      call builder (.reduce op)
      makeRoom builder rank rest
    else
      pure (.operator op :: rest)
  | stack => pure stack

/-- Reduces the operators above the innermost open parenthesis and removes
it. -/
def closeGroup
    (builder : Builder σ α) : List Token → PassM σ (List Token)
  | .operator op :: rest => do
    call builder (.reduce op)
    closeGroup builder rest
  | .opening :: rest => pure rest
  | _ => throw .unbalancedParenthesis

/-- Reads one token; the stack has its top first. -/
def step
    (builder : Builder σ α) (stack : List Token) (token : Token) :
    PassM σ (List Token) :=
  match token with
  | .number value => do
    call builder (.operand value)
    return stack
  | .opening =>
    if stack.count .opening = 18 then
      throw (.nestingTooDeep 18)
    else
      return .opening :: stack
  | .closing => closeGroup builder stack
  | .operator op => do
    let left ← makeRoom builder op.rank stack
    return .operator op :: left
  | .bottom => throw (.unexpectedToken .bottom)

/-- Reduces the operators that are left after the last token. -/
def drain
    (builder : Builder σ α) : List Token → PassM σ Unit
  | .operator op :: rest => do
    call builder (.reduceTrailing op)
    drain builder rest
  | .opening :: _ => throw .unbalancedParenthesis
  | _ => pure ()

/-- The pass over a token list. -/
def pass
    (builder : Builder σ α) (tokens : List Token) : PassM σ α := do
  let stack ← tokens.foldlM (step builder) [.bottom]
  drain builder stack
  finish builder

/-- Runs the pass on a fresh builder. -/
def run
    (builder : Builder σ α) (tokens : List Token) : Run α :=
  Run.ofPass builder (pass builder tokens)

/-- The stack below the innermost level. -/
def foot : List (List Operator) → List Token
  | [] => [.bottom]
  | level :: outer => .opening :: level.map .operator ++ foot outer

/-- The stack on which operators wait at every level. -/
def stackOf (pending : Pending) : List Token :=
  pending.inner.map .operator ++ foot pending.outer

theorem count_opening_operators
    (waiting : List Operator) :
    (waiting.map Token.operator).count .opening = 0 := by
  rw [List.count_eq_zero]
  simp

/-- The open parentheses on the stack are the levels around the innermost. -/
theorem count_opening_stackOf
    (inner : List Operator) (outer : List (List Operator)) :
    (stackOf ⟨inner, outer⟩).count .opening = outer.length := by
  induction outer generalizing inner with
  | nil =>
      simp [stackOf, foot, count_opening_operators]
  | cons level outer ih =>
      have hbelow := ih level
      simp only [stackOf, List.count_append, count_opening_operators] at hbelow
      simp [stackOf, foot, count_opening_operators, hbelow]

theorem makeRoom_foot
    (builder : Builder σ α) (rank : Nat) (outer : List (List Operator)) :
    makeRoom builder rank (foot outer) = pure (foot outer) := by
  cases outer with
  | nil =>
      rfl
  | cons level outer =>
      rfl

theorem makeRoom_stackOf
    (builder : Builder σ α) (op : Operator)
    (inner : List Operator) (outer : List (List Operator)) :
    makeRoom builder op.rank (stackOf ⟨inner, outer⟩) =
      playAll builder ((Pending.reductions (Pending.giving op inner)).map .call) >>= fun _ =>
        pure (stackOf ⟨Pending.staying op inner, outer⟩) := by
  induction inner with
  | nil =>
      simp [stackOf, makeRoom_foot, Pending.giving, Pending.staying, Pending.reductions,
        playAll_nil]
  | cons earlier inner ih =>
      by_cases hrank : op.rank ≤ earlier.rank
      · have hroom : makeRoom builder op.rank (stackOf ⟨earlier :: inner, outer⟩) =
            call builder (.reduce earlier) >>= fun _ =>
              makeRoom builder op.rank (stackOf ⟨inner, outer⟩) :=
          if_pos hrank
        rw [hroom, ih, Pending.giving_cons_of_le hrank, Pending.staying_cons_of_le hrank]
        exact (bind_assoc _ _ _).symm
      · have hlower := Nat.not_le.mp hrank
        have hroom : makeRoom builder op.rank (stackOf ⟨earlier :: inner, outer⟩) =
            pure (stackOf ⟨earlier :: inner, outer⟩) :=
          if_neg hrank
        rw [hroom, Pending.giving_cons_of_lt hlower, Pending.staying_cons_of_lt hlower]
        rfl

theorem closeGroup_stackOf
    (builder : Builder σ α) (inner : List Operator) (outer : List (List Operator)) :
    closeGroup builder (stackOf ⟨inner, outer⟩) =
      playAll builder ((Pending.reductions inner).map .call) >>= fun _ =>
        closeGroup builder (foot outer) := by
  induction inner with
  | nil =>
      rfl
  | cons op inner ih =>
      have hclose : closeGroup builder (stackOf ⟨op :: inner, outer⟩) =
          call builder (.reduce op) >>= fun _ => closeGroup builder (stackOf ⟨inner, outer⟩) :=
        rfl
      rw [hclose, ih]
      exact (bind_assoc _ _ _).symm

theorem drain_stackOf
    (builder : Builder σ α) (inner : List Operator) (outer : List (List Operator)) :
    drain builder (stackOf ⟨inner, outer⟩) =
      playAll builder ((Pending.trailingReductions inner).map .call) >>= fun _ =>
        drain builder (foot outer) := by
  induction inner with
  | nil =>
      rfl
  | cons op inner ih =>
      have hdrain : drain builder (stackOf ⟨op :: inner, outer⟩) =
          call builder (.reduceTrailing op) >>= fun _ =>
            drain builder (stackOf ⟨inner, outer⟩) :=
        rfl
      rw [hdrain, ih]
      exact (bind_assoc _ _ _).symm

/-- From any state the pass makes its calls on the tokens that are left, and
then concludes with the error of the scan, if there is one. -/
theorem rest_eq_playAll
    (builder : Builder σ α) (tokens : List Token) (pending : Pending) :
    (tokens.foldlM (step builder) (stackOf pending) >>= fun stack =>
        drain builder stack >>= fun _ => finish builder) =
      playAll builder ((pending.calls tokens).map .call) >>= fun _ =>
        conclude builder (bracketError? pending.depth tokens) := by
  induction tokens generalizing pending with
  | nil =>
      obtain ⟨inner, outer⟩ := pending
      rw [List.foldlM_nil, pure_bind, drain_stackOf, Pending.calls_nil, bind_assoc]
      cases outer with
      | nil =>
          rfl
      | cons level outer =>
          rfl
  | cons token rest ih =>
      obtain ⟨inner, outer⟩ := pending
      rw [List.foldlM_cons, bind_assoc]
      cases token with
      | number value =>
          rw [Pending.calls_number, bracketError?, List.map_cons, playAll_cons, bind_assoc, ← ih]
          exact bind_assoc _ _ _
      | opening =>
          have hcount := count_opening_stackOf inner outer
          by_cases hdepth : outer.length = maxNesting
          · have hstep : step builder (stackOf ⟨inner, outer⟩) .opening =
                throw (.nestingTooDeep 18) :=
              if_pos (hcount.trans hdepth)
            rw [hstep, Pending.calls_opening, if_pos hdepth, bracketError?, Pending.depth,
              if_pos hdepth]
            rfl
          · have hstep : step builder (stackOf ⟨inner, outer⟩) .opening =
                pure (stackOf ⟨[], inner :: outer⟩) :=
              if_neg (by rwa [hcount])
            rw [hstep, pure_bind, ih, Pending.calls_opening, if_neg hdepth, bracketError?,
              Pending.depth, Pending.depth, if_neg hdepth, List.length_cons]
      | closing =>
          rw [step, closeGroup_stackOf, bind_assoc]
          cases outer with
          | nil =>
              rw [Pending.calls_closing_unmatched]
              rfl
          | cons level outer =>
              have hgroup : closeGroup builder (foot (level :: outer)) =
                  pure (stackOf ⟨level, outer⟩) :=
                rfl
              rw [hgroup, Pending.calls_closing, List.map_append, playAll_append, bind_assoc]
              simp only [pure_bind, ih]
              rfl
      | operator op =>
          rw [step, makeRoom_stackOf, Pending.calls_operator, List.map_append, playAll_append,
            bracketError?]
          simp only [bind_assoc, pure_bind]
          have hnext := ih ⟨op :: Pending.staying op inner, outer⟩
          exact congrArg (_ >>= fun _ => ·) hnext
      | bottom =>
          rw [Pending.calls_bottom, bracketError?]
          rfl

/-- The pass makes the calls of the pass with priorities, and concludes as that
does. -/
theorem pass_eq_playAll
    (builder : Builder σ α) (tokens : List Token) :
    pass builder tokens =
      playAll builder ((Pending.start.calls tokens).map .call) >>= fun _ =>
        conclude builder (bracketError? 0 tokens) := by
  exact rest_eq_playAll builder tokens .start

end RankPass

variable {σ α : Type}

/-- The pass with priorities and the pass by ranks have the same result and
make the same requests in the same order, whatever the builder does. -/
theorem run_eq_rankPass
    (builder : Builder σ α) (tokens : List Token) :
    (run builder tokens).result = (RankPass.run builder tokens).result ∧
      (run builder tokens).requests = (RankPass.run builder tokens).requests := by
  rw [RankPass.run, RankPass.pass_eq_playAll]
  constructor
  · rw [run_result, Run.result_ofPass, Action.calls_map_call]
  · rw [requests_run, Run.requests_ofPass, Action.calls_map_call]

end Parse
end InfixCalc
