import InfixCalc.Proofs.Pending

/-!
# What a run asks of its builder

The requests of a run are its calls and, at the end, the request for what was
built; records are left out.  Which calls are made is decided by the calls that
the pass wants to make and by the first of them that the builder refuses.

* `Builder.made` : the calls that are made, the refused one included.
* `Run.requests_ofPass` : the requests of a pass that performs actions.
-/

namespace InfixCalc
namespace Parse

/-- Whether an event is a request to the builder. -/
def Event.isRequest : Event → Bool
  | call _ => true
  | finish => true
  | note _ => false

/-- The requests of a run to its builder, in order. -/
def Run.requests
    {α : Type} (run : Run α) : List Event :=
  run.events.filter Event.isRequest

/-- The requests for calls. -/
def requestsOf (calls : List Call) : List Event :=
  calls.map .call

namespace Builder

variable {σ α : Type}

/-- The calls that are made: those up to the first one that is refused. -/
def made
    (builder : Builder σ α) : σ → List Call → List Call
  | _, [] => []
  | state, call :: rest =>
      call ::
        match builder.attempt state call with
        | .ok after => builder.made after rest
        | .error _ => []

theorem made_cons_of_ok
    {builder : Builder σ α} {state after : σ} {call : Call}
    (hok : builder.attempt state call = .ok after)
    (rest : List Call) :
    builder.made state (call :: rest) = call :: builder.made after rest := by
  rw [made, hok]

theorem made_cons_of_error
    {builder : Builder σ α} {state : σ} {call : Call} {error : ParseError}
    (herror : builder.attempt state call = .error error)
    (rest : List Call) :
    builder.made state (call :: rest) = [call] := by
  rw [made, herror]

theorem made_prefix
    (builder : Builder σ α) (state : σ) (calls : List Call) :
    builder.made state calls <+: calls := by
  induction calls generalizing state with
  | nil =>
      exact List.nil_prefix
  | cons call rest ih =>
      cases hcall : builder.attempt state call with
      | ok after =>
          rw [made_cons_of_ok hcall]
          exact (List.prefix_cons_inj call).mpr (ih after)
      | error error =>
          rw [made_cons_of_error hcall]
          exact (List.prefix_cons_inj call).mpr List.nil_prefix

/-- The calls that are made come to the same as the calls that were wanted. -/
theorem attemptAll_made
    (builder : Builder σ α) (state : σ) (calls : List Call) :
    builder.attemptAll state (builder.made state calls) = builder.attemptAll state calls := by
  induction calls generalizing state with
  | nil =>
      rfl
  | cons call rest ih =>
      cases hcall : builder.attempt state call with
      | ok after =>
          rw [made_cons_of_ok hcall, attemptAll_cons, attemptAll_cons, hcall, ok_bind, ok_bind,
            ih after]
      | error error =>
          rw [made_cons_of_error hcall, attemptAll_cons, attemptAll_cons, hcall, error_bind,
            error_bind]

theorem made_of_ok
    {builder : Builder σ α} {state after : σ} {calls : List Call}
    (hok : builder.attemptAll state calls = .ok after) :
    builder.made state calls = calls := by
  induction calls generalizing state with
  | nil =>
      rfl
  | cons call rest ih =>
      rw [attemptAll_cons] at hok
      obtain ⟨next, hcall, hrest⟩ := bind_eq_ok.mp hok
      rw [made_cons_of_ok hcall, ih hrest]

theorem filter_isRequest_records
    (records : List Record) :
    (records.map Event.note).filter Event.isRequest = [] := by
  induction records with
  | nil =>
      rfl
  | cons record rest ih =>
      exact ih

/-- Without their records, the events of actions are the calls that are made. -/
theorem filter_isRequest_eventsOf
    (builder : Builder σ α) (state : σ) (actions : List Action) :
    (builder.eventsOf state actions).filter Event.isRequest =
      requestsOf (builder.made state (Action.calls actions)) := by
  induction actions generalizing state with
  | nil =>
      rfl
  | cons action rest ih =>
      cases action with
      | note record =>
          exact ih state
      | call made =>
          have hrecords := filter_isRequest_records (builder.perform made state).records
          rw [eventsOf, List.cons_append, List.filter_cons_of_pos rfl, List.filter_append,
            hrecords, List.nil_append, Action.calls_cons_call]
          cases hcall : builder.attempt state made with
          | ok after =>
              rw [made_cons_of_ok hcall]
              exact congrArg (.call made :: ·) (ih after)
          | error error =>
              rw [made_cons_of_error hcall]
              rfl

end Builder

namespace Run

variable {σ α : Type}

theorem filterMap_call?_requestsOf
    (calls : List Call) :
    (requestsOf calls).filterMap Event.call? = calls := by
  induction calls with
  | nil =>
      rfl
  | cons call rest ih =>
      exact congrArg (call :: ·) ih

/-- The calls of a run are found among its requests. -/
theorem calls_eq_requests
    (run : Run α) :
    run.calls = run.requests.filterMap Event.call? := by
  rw [calls, requests, List.filterMap_filter]
  congr 1
  funext event
  cases event <;> rfl

theorem mem_requests_finish
    {run : Run α} :
    .finish ∈ run.requests ↔ .finish ∈ run.events := by
  simp [requests, Event.isRequest]

theorem finish_notMem_requestsOf
    (calls : List Call) :
    .finish ∉ requestsOf calls := by
  simp [requestsOf]

/-- A pass that performs actions and concludes makes their calls, and asks for
what was built if none of them is refused and it has no error of its own. -/
theorem requests_ofPass
    (builder : Builder σ α) (actions : List Action) (error? : Option ParseError) :
    (Run.ofPass builder
        (playAll builder actions >>= fun _ => conclude builder error?)).requests =
      requestsOf (builder.made builder.initial (Action.calls actions)) ++
        match builder.attemptAll builder.initial (Action.calls actions), error? with
        | .ok _, none => [.finish]
        | _, _ => [] := by
  rw [requests, events_ofPass, List.filter_append, Builder.filter_isRequest_eventsOf]
  cases builder.attemptAll builder.initial (Action.calls actions) with
  | error error =>
      rfl
  | ok state =>
      cases error? with
      | some error =>
          rfl
      | none =>
          have hrecords := Builder.filter_isRequest_records (builder.finish state).records
          exact congrArg (_ ++ .finish :: ·) hrecords

end Run

variable {σ α : Type}

theorem requests_run
    (builder : Builder σ α) (tokens : List Token) :
    (run builder tokens).requests =
      requestsOf (builder.made builder.initial (Pending.start.calls tokens)) ++
        match builder.attemptAll builder.initial (Pending.start.calls tokens),
            bracketError? 0 tokens with
        | .ok _, none => [.finish]
        | _, _ => [] := by
  rw [run_eq_ofPass, Run.requests_ofPass, calls_passActions]

theorem calls_run
    (builder : Builder σ α) (tokens : List Token) :
    (run builder tokens).calls =
      builder.made builder.initial (Pending.start.calls tokens) := by
  rw [Run.calls_eq_requests, requests_run, List.filterMap_append,
    Run.filterMap_call?_requestsOf]
  cases builder.attemptAll builder.initial (Pending.start.calls tokens) with
  | error error =>
      simp
  | ok state =>
      cases bracketError? 0 tokens with
      | some error =>
          simp
      | none =>
          simp [Event.call?]

end Parse
end InfixCalc
