import InfixCalc.Parse.Pass
import InfixCalc.Proofs.Sequencing

/-!
# Performing actions on a builder

What the pass does of its own accord is a list of actions: calls on the
builder and records.  A builder answers the calls one after another, and the
first call that it refuses ends the performance.

* `Builder.attemptAll` : the state after a list of calls, unless one of them
  is refused.
* `Builder.eventsOf` : everything that happens while actions are performed.
* `playAll_of_ok`, `playAll_of_error` : performing actions within a pass comes
  to exactly these two.
-/

namespace InfixCalc
namespace Parse

/-- What a pass does of its own accord. -/
inductive Action where
  | call (made : Call)
  | note (record : Record)
  deriving DecidableEq, Repr

namespace Action

/-- The call of an action. -/
def call? : Action → Option Call
  | call made => some made
  | note _ => none

/-- The calls among actions. -/
def calls (actions : List Action) : List Call :=
  actions.filterMap call?

@[simp] theorem calls_nil :
    calls [] = [] := by
  rfl

@[simp] theorem calls_cons_call
    (made : Call) (rest : List Action) :
    calls (.call made :: rest) = made :: calls rest := by
  rfl

@[simp] theorem calls_cons_note
    (record : Record) (rest : List Action) :
    calls (.note record :: rest) = calls rest := by
  rfl

@[simp] theorem calls_append
    (first second : List Action) :
    calls (first ++ second) = calls first ++ calls second := by
  exact List.filterMap_append

@[simp] theorem calls_map_call
    (made : List Call) :
    calls (made.map .call) = made := by
  induction made with
  | nil =>
      rfl
  | cons call rest ih =>
      simp [ih]

end Action

/-- The state that a reply leaves, unless the call is refused. -/
def Reply.outcome
    {σ : Type} (reply : Reply σ) :
    Except ParseError σ :=
  match reply.failure? with
  | none => .ok reply.state
  | some error => .error error

namespace Builder

variable {σ α : Type}

/-- The state after a call, unless it is refused. -/
def attempt
    (builder : Builder σ α) (state : σ) (made : Call) :
    Except ParseError σ :=
  (builder.perform made state).outcome

theorem attempt_of_accepted
    {builder : Builder σ α} {state : σ} {made : Call}
    (haccepted : (builder.perform made state).failure? = none) :
    builder.attempt state made = .ok (builder.perform made state).state := by
  rw [attempt, Reply.outcome, haccepted]

theorem attempt_of_refused
    {builder : Builder σ α} {state : σ} {made : Call} {error : ParseError}
    (hrefused : (builder.perform made state).failure? = some error) :
    builder.attempt state made = .error error := by
  rw [attempt, Reply.outcome, hrefused]

theorem attempt_eq_ok
    {builder : Builder σ α} {state after : σ} {made : Call}
    (hok : builder.attempt state made = .ok after) :
    (builder.perform made state).failure? = none ∧
      (builder.perform made state).state = after := by
  cases hreply : (builder.perform made state).failure? with
  | none =>
      rw [attempt_of_accepted hreply] at hok
      cases hok
      exact ⟨rfl, rfl⟩
  | some error =>
      rw [attempt_of_refused hreply] at hok
      cases hok

theorem attempt_eq_error
    {builder : Builder σ α} {state : σ} {made : Call} {error : ParseError}
    (herror : builder.attempt state made = .error error) :
    (builder.perform made state).failure? = some error := by
  cases hreply : (builder.perform made state).failure? with
  | none =>
      rw [attempt_of_accepted hreply] at herror
      cases herror
  | some refusal =>
      rw [attempt_of_refused hreply] at herror
      cases herror
      rfl

/-- The state after a list of calls, unless one of them is refused. -/
def attemptAll
    (builder : Builder σ α) (state : σ) (calls : List Call) :
    Except ParseError σ :=
  calls.foldlM builder.attempt state

@[simp] theorem attemptAll_nil
    (builder : Builder σ α) (state : σ) :
    builder.attemptAll state [] = .ok state := by
  rfl

theorem attemptAll_cons
    (builder : Builder σ α) (state : σ)
    (made : Call) (rest : List Call) :
    builder.attemptAll state (made :: rest) =
      builder.attempt state made >>= fun after => builder.attemptAll after rest := by
  rfl

theorem attemptAll_append
    (builder : Builder σ α) (state : σ)
    (first second : List Call) :
    builder.attemptAll state (first ++ second) =
      builder.attemptAll state first >>= fun after => builder.attemptAll after second := by
  exact List.foldlM_append

@[simp] theorem attempt_operand
    (builder : Builder σ α) (state : σ) (value : Value) :
    builder.attempt state (.operand value) = .ok (builder.operand value state) := by
  rfl

/-- The events of actions, up to the first call that is refused. -/
def eventsOf
    (builder : Builder σ α) : σ → List Action → List Event
  | _, [] => []
  | state, .note record :: rest =>
      .note record :: builder.eventsOf state rest
  | state, .call made :: rest =>
      .call made :: (builder.perform made state).records.map .note ++
        match builder.attempt state made with
        | .ok after => builder.eventsOf after rest
        | .error _ => []

end Builder

variable {σ α : Type}

/-- Performs an action within a pass. -/
def play
    (builder : Builder σ α) : Action → PassM σ Unit
  | .call made => call builder made
  | .note record => note record

/-- Performs actions within a pass. -/
def playAll
    (builder : Builder σ α) (actions : List Action) : PassM σ Unit :=
  actions.forM (play builder)

theorem playAll_append
    (builder : Builder σ α)
    (first second : List Action) :
    playAll builder (first ++ second) =
      playAll builder first >>= fun _ => playAll builder second := by
  exact List.forM_append

theorem playAll_nil
    (builder : Builder σ α) :
    playAll builder [] = pure () := by
  rfl

theorem playAll_cons
    (builder : Builder σ α)
    (action : Action) (rest : List Action) :
    playAll builder (action :: rest) =
      play builder action >>= fun _ => playAll builder rest := by
  rfl

theorem play_note
    (builder : Builder σ α) (record : Record)
    (state : σ) (earlier : List Event) :
    play builder (.note record) ⟨state, earlier⟩ =
      .ok () ⟨state, .note record :: earlier⟩ := by
  rfl

theorem call_of_ok
    {builder : Builder σ α} {made : Call} {state after : σ}
    (hok : builder.attempt state made = .ok after)
    (earlier : List Event) :
    call builder made ⟨state, earlier⟩ =
      .ok () ⟨after,
        (.call made :: (builder.perform made state).records.map .note).reverse ++ earlier⟩ := by
  obtain ⟨haccepted, rfl⟩ := Builder.attempt_eq_ok hok
  simp [call, haccepted]

theorem call_of_error
    {builder : Builder σ α} {made : Call} {state : σ} {error : ParseError}
    (herror : builder.attempt state made = .error error)
    (earlier : List Event) :
    call builder made ⟨state, earlier⟩ =
      .error error ⟨(builder.perform made state).state,
        (.call made :: (builder.perform made state).records.map .note).reverse ++ earlier⟩ := by
  have hrefused := Builder.attempt_eq_error herror
  simp [call, hrefused]

/-- Actions whose calls all succeed leave the state after the calls, and all
their events. -/
theorem playAll_of_ok
    {builder : Builder σ α} {actions : List Action} {state after : σ}
    (hok : builder.attemptAll state (Action.calls actions) = .ok after)
    (earlier : List Event) :
    playAll builder actions ⟨state, earlier⟩ =
      .ok () ⟨after, (builder.eventsOf state actions).reverse ++ earlier⟩ := by
  induction actions generalizing state earlier with
  | nil =>
      cases hok
      rfl
  | cons action rest ih =>
      cases action with
      | note record =>
          have hrest := ih hok (.note record :: earlier)
          rw [playAll_cons, run_bind_of_ok (play_note builder record state earlier), hrest]
          simp [Builder.eventsOf]
      | call made =>
          rw [Action.calls_cons_call, Builder.attemptAll_cons] at hok
          obtain ⟨next, hmade, hnext⟩ := bind_eq_ok.mp hok
          have hcall := call_of_ok hmade earlier
          rw [playAll_cons, play, run_bind_of_ok hcall, ih hnext]
          simp [Builder.eventsOf, hmade]

/-- Actions with a call that is refused stop there, with the events so far. -/
theorem playAll_of_error
    {builder : Builder σ α} {actions : List Action} {state : σ} {error : ParseError}
    (herror : builder.attemptAll state (Action.calls actions) = .error error)
    (earlier : List Event) :
    ∃ after,
      playAll builder actions ⟨state, earlier⟩ =
        .error error ⟨after, (builder.eventsOf state actions).reverse ++ earlier⟩ := by
  induction actions generalizing state earlier with
  | nil =>
      cases herror
  | cons action rest ih =>
      cases action with
      | note record =>
          obtain ⟨after, hrest⟩ := ih herror (.note record :: earlier)
          refine ⟨after, ?_⟩
          rw [playAll_cons, run_bind_of_ok (play_note builder record state earlier), hrest]
          simp [Builder.eventsOf]
      | call made =>
          rw [Action.calls_cons_call, Builder.attemptAll_cons] at herror
          cases hmade : builder.attempt state made with
          | error refusal =>
              rw [hmade] at herror
              cases herror
              have hcall := call_of_error hmade earlier
              refine ⟨(builder.perform made state).state, ?_⟩
              rw [playAll_cons, play, run_bind_of_error hcall]
              simp [Builder.eventsOf, hmade]
          | ok next =>
              rw [hmade, ok_bind] at herror
              have hcall := call_of_ok hmade earlier
              obtain ⟨after, hrest⟩ := ih herror
                ((.call made :: (builder.perform made state).records.map .note).reverse ++
                  earlier)
              refine ⟨after, ?_⟩
              rw [playAll_cons, play, run_bind_of_ok hcall, hrest]
              simp [Builder.eventsOf, hmade]

end Parse
end InfixCalc
