import InfixCalc.Parse
import InfixCalc.Proofs.Requests

/-!
# The pass is oblivious to its builder

Two builders get the same calls in the same order for as long as neither
refuses one.  So a run on a builder that never refuses shows all calls that the
pass wants to make, and how the pass itself ends; a run on any other builder
follows it up to its first refusal and stops there.

* `Run.Follows` : a run goes along with a run on a builder that never refuses.
* `run_follows` : every run does, and trees and sequences in reverse Polish
  order come from the same calls.
-/

namespace InfixCalc
namespace Parse

namespace Builder

variable {σ α : Type}

/-- The builder refuses no call in any state. -/
def NeverRefuses (builder : Builder σ α) : Prop :=
  ∀ call state, (builder.perform call state).failure? = none

/-- The state after calls, refused or not. -/
def stateAfter
    (builder : Builder σ α) (state : σ) (calls : List Call) : σ :=
  calls.foldl (fun before call => (builder.perform call before).state) state

/-- Calls that are all accepted lead to the state after them. -/
theorem attemptAll_of_accepted
    {builder : Builder σ α} {state : σ} {calls : List Call}
    (haccepted : ∀ reply ∈ builder.replies state calls, reply.failure? = none) :
    builder.attemptAll state calls = .ok (builder.stateAfter state calls) := by
  induction calls generalizing state with
  | nil =>
      rfl
  | cons call rest ih =>
      rw [replies] at haccepted
      have hcall := attempt_of_accepted (haccepted _ List.mem_cons_self)
      have hrest := ih fun reply hreply => haccepted reply (List.mem_cons_of_mem _ hreply)
      rw [attemptAll_cons, hcall, ok_bind, hrest]
      rfl

theorem accepted_of_neverRefuses
    {builder : Builder σ α}
    (hnever : builder.NeverRefuses) (state : σ) (calls : List Call) :
    ∀ reply ∈ builder.replies state calls, reply.failure? = none := by
  induction calls generalizing state with
  | nil =>
      intro reply hreply
      cases hreply
  | cons call rest ih =>
      rintro reply hreply
      rw [replies] at hreply
      rcases List.mem_cons.mp hreply with rfl | hlater
      · exact hnever call state
      · exact ih _ reply hlater

/-- Among the calls that are made only the last one may be refused, and its
error is that of the calls that were wanted. -/
theorem refused_of_made
    {builder : Builder σ α} {state : σ} {calls : List Call}
    {earlier later : List (Reply σ)} {reply : Reply σ} {error : ParseError}
    (hreplies : builder.replies state (builder.made state calls) = earlier ++ reply :: later)
    (hrefused : reply.failure? = some error) :
    later = [] ∧ builder.attemptAll state calls = .error error := by
  induction calls generalizing state earlier with
  | nil =>
      cases earlier <;> cases hreplies
  | cons call rest ih =>
      rw [attemptAll_cons]
      cases hcall : builder.attempt state call with
      | error failure =>
          rw [made_cons_of_error hcall] at hreplies
          cases earlier with
          | nil =>
              cases hreplies
              rw [attempt_of_refused hrefused] at hcall
              cases hcall
              exact ⟨rfl, rfl⟩
          | cons first earlier =>
              injection hreplies with _ hnone
              cases earlier <;> cases hnone
      | ok after =>
          obtain ⟨haccepted, hafter⟩ := attempt_eq_ok hcall
          rw [made_cons_of_ok hcall, replies, hafter] at hreplies
          cases earlier with
          | nil =>
              injection hreplies with hfirst _
              rw [← hfirst, haccepted] at hrefused
              cases hrefused
          | cons first earlier =>
              injection hreplies with _ hrest
              exact ih hrest

end Builder

variable {σ τ α β : Type}

namespace Run

/-- The error with which a pass ended a run before it asked for what was
built. -/
def ownError? (run : Run α) : Option ParseError :=
  match run.result with
  | .ok _ => none
  | .error error => if .finish ∈ run.events then none else some error

/-- The run `actual` on a builder goes along with the run `steady` on a builder
that never refuses a call. -/
structure Follows (actual : Run α) (builder : Builder σ α) (steady : Run β) : Prop where
  calls_prefix :
    actual.calls <+: steady.calls
  /-- If no call is refused, all calls are made, and the run ends as the other
  one does: with the error of the pass, or with what the builder built. -/
  accepted :
    (∀ reply ∈ builder.replies builder.initial actual.calls, reply.failure? = none) →
    actual.calls = steady.calls ∧
      match steady.ownError? with
      | some error =>
          actual.result = .error error ∧
          actual.requests = requestsOf actual.calls
      | none =>
          actual.result =
            (builder.finish (builder.stateAfter builder.initial actual.calls)).result ∧
          actual.requests = requestsOf actual.calls ++ [.finish]
  /-- If a call is refused, nothing is asked of the builder after it, and its
  error is the result. -/
  refused (earlier later : List (Reply σ)) (reply : Reply σ) (error : ParseError) :
    builder.replies builder.initial actual.calls = earlier ++ reply :: later →
    reply.failure? = some error →
    later = [] ∧
      actual.result = .error error ∧
      actual.requests = requestsOf actual.calls

end Run

/-- A run in which no call is refused makes all calls of the pass. -/
theorem calls_of_accepted
    {builder : Builder σ α} {tokens : List Token}
    (haccepted : ∀ reply ∈ builder.replies builder.initial (run builder tokens).calls,
      reply.failure? = none) :
    (run builder tokens).calls = Pending.start.calls tokens := by
  have hall := Builder.attemptAll_of_accepted haccepted
  rw [calls_run, Builder.attemptAll_made] at hall
  rw [calls_run, Builder.made_of_ok hall]

/-- On a builder that never refuses, the pass makes all its calls and ends by
itself just when the scan of the parentheses finds an error. -/
theorem run_of_neverRefuses
    {steady : Builder τ β} (hsteady : steady.NeverRefuses) (tokens : List Token) :
    (run steady tokens).calls = Pending.start.calls tokens ∧
      (run steady tokens).ownError? = bracketError? 0 tokens := by
  have hall := Builder.attemptAll_of_accepted
    (Builder.accepted_of_neverRefuses hsteady steady.initial (Pending.start.calls tokens))
  have hmade := Builder.made_of_ok hall
  have hresult := run_result steady tokens
  have hrequests := requests_run steady tokens
  rw [hall, ok_bind] at hresult
  rw [hall, hmade] at hrequests
  constructor
  · rw [calls_run, hmade]
  · unfold Run.ownError?
    simp only [← Run.mem_requests_finish, hrequests]
    cases hscan : bracketError? 0 tokens with
    | some error =>
        rw [hscan] at hresult
        simp [hresult, Run.finish_notMem_requestsOf]
    | none =>
        cases hfinish : (run steady tokens).result with
        | ok built =>
            rfl
        | error error =>
            simp

/-- The run of any builder goes along with one on a builder that never
refuses. -/
theorem follows_of_neverRefuses
    {steady : Builder τ β} (hsteady : steady.NeverRefuses)
    (builder : Builder σ α) (tokens : List Token) :
    (run builder tokens).Follows builder (run steady tokens) := by
  obtain ⟨hcalls, herror⟩ := run_of_neverRefuses hsteady tokens
  have hmade := calls_run builder tokens
  have hresult := run_result builder tokens
  have hrequests := requests_run builder tokens
  rw [← hmade] at hrequests
  constructor
  case calls_prefix =>
    rw [hcalls, hmade]
    exact builder.made_prefix _ _
  case accepted =>
    intro haccepted
    have hwanted := calls_of_accepted haccepted
    have hall := Builder.attemptAll_of_accepted haccepted
    rw [hmade, Builder.attemptAll_made, ← hmade] at hall
    rw [hall, ok_bind] at hresult
    rw [hall] at hrequests
    refine ⟨hwanted.trans hcalls.symm, ?_⟩
    rw [herror]
    cases hscan : bracketError? 0 tokens with
    | some error =>
        rw [hscan] at hresult hrequests
        exact ⟨hresult, by simpa using hrequests⟩
    | none =>
        rw [hscan] at hresult hrequests
        exact ⟨hresult, hrequests⟩
  case refused =>
    intro earlier later reply error hreplies hrefused
    rw [hmade] at hreplies
    obtain ⟨hlast, hstopped⟩ := Builder.refused_of_made hreplies hrefused
    rw [hstopped, error_bind] at hresult
    rw [hstopped] at hrequests
    exact ⟨hlast, hresult, by simpa using hrequests⟩

theorem neverRefuses_rpnBuilder :
    rpnBuilder.NeverRefuses := by
  intro call state
  cases call <;> rfl

/-- Which calls a run makes, and how the pass itself ends, does not depend on
the builder; it only decides how far the run gets.  The tree and the sequence
in reverse Polish order of a token list come from the same calls. -/
theorem run_follows
    (steady : Builder τ β) (hsteady : steady.NeverRefuses)
    (builder : Builder σ α) (tokens : List Token) :
    (run builder tokens).Follows builder (run steady tokens) ∧
      (treeRun tokens).Follows treeBuilder (rpnRun tokens) := by
  constructor
  · exact follows_of_neverRefuses hsteady builder tokens
  · exact follows_of_neverRefuses neverRefuses_rpnBuilder treeBuilder tokens

/-- In `( 3 + ) * 2` the builder of trees refuses the sum, and no call follows
it; a counter gets all four calls. -/
theorem run_follows_until_refusal :
    (Builder.counter none).NeverRefuses ∧
      (run treeBuilder
          [.opening, .number 3, .operator .plus, .closing, .operator .times,
            .number 2]).calls <+:
        [.operand 3, .reduce .plus, .operand 2, .reduceTrailing .times] ∧
      (run treeBuilder
          [.opening, .number 3, .operator .plus, .closing, .operator .times,
            .number 2]).requests =
        requestsOf [.operand 3, .reduce .plus] ∧
      (run treeBuilder
          [.opening, .number 3, .operator .plus, .closing, .operator .times,
            .number 2]).result =
        .error (.missingOperand .plus) := by
  have hnever : (Builder.counter none).NeverRefuses := by
    intro call state
    cases call <;> rfl
  obtain ⟨hfollows, _⟩ := run_follows (Builder.counter none) hnever treeBuilder
    [.opening, .number 3, .operator .plus, .closing, .operator .times, .number 2]
  obtain ⟨_, hresult, hrequests⟩ :=
    hfollows.refused [⟨[.leaf 3], [], none⟩] [] ⟨[], [], some (.missingOperand .plus)⟩
      (.missingOperand .plus) rfl rfl
  exact ⟨hnever, hfollows.calls_prefix, hrequests, hresult⟩

end Parse
end InfixCalc
