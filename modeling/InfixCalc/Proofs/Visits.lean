import InfixCalc.Expr.Fold
import InfixCalc.Proofs.StackRun

/-!
# Visiting a tree

A visitor is asked about every leaf and, after both subtrees, about every node, and
then it is told the answers for the subtrees.  It keeps a state, and instead of an
answer it may give an error.  A tree asks its questions in reverse Polish order, each
in the state that the one before it left, and stops at the first error.

* `Visitor.accept` : what comes of visiting a tree.
* `Visitor.visits` : the questions that are asked, and what comes of each.
* `Expr.Course` : how the visits of a tree may go.
* `Visitor.visits_of_accept` : how they go.
-/

namespace InfixCalc

/-- What a visitor is asked: about a leaf, or about a node, given the answers for its
two subtrees. -/
inductive Question (ρ : Type) where
  | leaf (value : Value)
  | node (op : Operator) (left right : ρ)
  deriving DecidableEq, Repr

/-- The token of the leaf or node that is asked about. -/
def Question.token {ρ : Type} : Question ρ → Token
  | .leaf value => .number value
  | .node op _ _ => .operator op

/-- A question, with the answer or the error that comes of it. -/
structure Exchange (ε ρ : Type) where
  question : Question ρ
  answer : Except ε ρ
  deriving Repr

/-- What is asked about leaves and nodes, with a state that is kept when it fails. -/
structure Visitor (ε σ ρ : Type) where
  leaf : Value → EStateM ε σ ρ
  node : Operator → ρ → ρ → EStateM ε σ ρ

section Results

variable {ε σ α ν : Type}

/-- The state in which a computation ends. -/
def stateOf : EStateM.Result ε σ α → σ
  | .ok _ after => after
  | .error _ after => after

/-- Puts notes beside the state in which a computation ends. -/
def annotate (notes : ν) : EStateM.Result ε σ α → EStateM.Result ε (σ × ν) α
  | .ok value after => .ok value (after, notes)
  | .error error after => .error error (after, notes)

@[simp] theorem stateOf_annotate
    (notes : ν) (result : EStateM.Result ε σ α) :
    stateOf (annotate notes result) = (stateOf result, notes) := by
  cases result <;> rfl

end Results

namespace Exchange

variable {ε ρ : Type}

/-- The token of the leaf or node that an exchange is about. -/
def token (exchange : Exchange ε ρ) : Token :=
  exchange.question.token

/-- The exchanges come to an outcome: the last of them has it, and all before it are
answered. -/
def ComeTo (exchanges : List (Exchange ε ρ)) (outcome : Except ε ρ) : Prop :=
  ∃ before last,
    exchanges = before ++ [last] ∧
    (∀ exchange ∈ before, ∃ answer, exchange.answer = .ok answer) ∧
    last.answer = outcome

variable {exchanges first second : List (Exchange ε ρ)} {outcome : Except ε ρ} {answer : ρ}

theorem ComeTo.single
    (question : Question ρ) (outcome : Except ε ρ) :
    ComeTo [⟨question, outcome⟩] outcome := by
  exact ⟨[], ⟨question, outcome⟩, rfl, List.forall_mem_nil _, rfl⟩

theorem ComeTo.answered
    (hcome : ComeTo exchanges (.ok answer)) :
    ∀ exchange ∈ exchanges, ∃ answer, exchange.answer = .ok answer := by
  obtain ⟨before, last, rfl, hbefore, hlast⟩ := hcome
  intro exchange hmem
  rcases List.mem_append.mp hmem with hmem | hmem
  · exact hbefore exchange hmem
  · rw [List.mem_singleton.mp hmem]
    exact ⟨answer, hlast⟩

/-- Exchanges that are all answered may go before others. -/
theorem ComeTo.after
    (hfirst : ∀ exchange ∈ first, ∃ answer, exchange.answer = .ok answer)
    (hsecond : ComeTo second outcome) :
    ComeTo (first ++ second) outcome := by
  obtain ⟨before, last, rfl, hbefore, hlast⟩ := hsecond
  refine ⟨first ++ before, last, (List.append_assoc _ _ _).symm, ?_, hlast⟩
  intro exchange hmem
  rcases List.mem_append.mp hmem with hmem | hmem
  · exact hfirst exchange hmem
  · exact hbefore exchange hmem

end Exchange

namespace Expr

variable {ε ρ : Type}

/-- How the visits of a tree may go, and what comes of them: the left subtree is
visited, then the right one unless the left one fails, and then the node is asked
about, given their answers, unless the right one fails. -/
inductive Course : Expr → List (Exchange ε ρ) → Except ε ρ → Prop
  | leaf (value : Value) (outcome : Except ε ρ) :
      Course (.number value) [⟨.leaf value, outcome⟩] outcome
  | node {op : Operator} {left right : Expr} {first second : List (Exchange ε ρ)}
      {atLeft atRight : ρ} (outcome : Except ε ρ) :
      Course left first (.ok atLeft) →
      Course right second (.ok atRight) →
      Course (.binary op left right)
        (first ++ second ++ [⟨.node op atLeft atRight, outcome⟩]) outcome
  | stopLeft {op : Operator} {left right : Expr} {first : List (Exchange ε ρ)} {error : ε} :
      Course left first (.error error) →
      Course (.binary op left right) first (.error error)
  | stopRight {op : Operator} {left right : Expr} {first second : List (Exchange ε ρ)}
      {atLeft : ρ} {error : ε} :
      Course left first (.ok atLeft) →
      Course right second (.error error) →
      Course (.binary op left right) (first ++ second) (.error error)

namespace Course

variable {tree : Expr} {made : List (Exchange ε ρ)} {outcome : Except ε ρ}

/-- The visits come to the outcome: none is made after one that fails. -/
theorem comeTo
    (hcourse : Course tree made outcome) :
    Exchange.ComeTo made outcome := by
  induction hcourse with
  | leaf value outcome =>
      exact .single (.leaf value) outcome
  | node outcome _ _ ihLeft ihRight =>
      rw [List.append_assoc]
      exact (Exchange.ComeTo.single _ outcome).after ihRight.answered |>.after ihLeft.answered
  | stopLeft _ ihLeft =>
      exact ihLeft
  | stopRight _ _ ihLeft ihRight =>
      exact ihRight.after ihLeft.answered

/-- Visits that are not stopped are made in reverse Polish order. -/
theorem tokens_of_ok
    {result : ρ}
    (hcourse : Course tree made (.ok result : Except ε ρ)) :
    made.map Exchange.token = tree.toRpn := by
  generalize houtcome : (.ok result : Except ε ρ) = outcome at hcourse
  induction hcourse generalizing result with
  | leaf value outcome =>
      rfl
  | node outcome _ _ ihLeft ihRight =>
      rw [List.map_append, List.map_append, ihLeft rfl, ihRight rfl]
      rfl
  | stopLeft _ _ =>
      cases houtcome
  | stopRight _ _ _ _ =>
      cases houtcome

/-- In any case they are made in that order as far as they go. -/
theorem tokens_prefix
    (hcourse : Course tree made outcome) :
    made.map Exchange.token <+: tree.toRpn := by
  induction hcourse with
  | leaf value outcome =>
      exact List.prefix_rfl
  | node outcome hleft hright _ _ =>
      rw [List.map_append, List.map_append, hleft.tokens_of_ok, hright.tokens_of_ok]
      exact List.prefix_rfl
  | stopLeft _ ihLeft =>
      rw [toRpn, List.append_assoc]
      exact ihLeft.trans (List.prefix_append _ _)
  | stopRight hleft _ _ ihRight =>
      rw [List.map_append, hleft.tokens_of_ok, toRpn, List.append_assoc]
      exact (List.prefix_append_right_inj _).mpr (ihRight.trans (List.prefix_append _ _))

end Course
end Expr

namespace Visitor

variable {ε σ ρ : Type}

/-- Visits the leaves and nodes of a tree. -/
def accept (visitor : Visitor ε σ ρ) (tree : Expr) : EStateM ε σ ρ :=
  tree.foldM visitor.leaf visitor.node

/-- Asks a question. -/
def ask (visitor : Visitor ε σ ρ) : Question ρ → EStateM ε σ ρ
  | .leaf value => visitor.leaf value
  | .node op left right => visitor.node op left right

/-- Asks questions one after the other, each in the state that the one before it
left. -/
def exchanges (visitor : Visitor ε σ ρ) : σ → List (Question ρ) → List (Exchange ε ρ)
  | _, [] => []
  | state, question :: rest =>
    ⟨question, resultOf (visitor.ask question state)⟩ ::
      visitor.exchanges (stateOf (visitor.ask question state)) rest

/-- The state that questions leave. -/
def stateAfter (visitor : Visitor ε σ ρ) (state : σ) (questions : List (Question ρ)) : σ :=
  questions.foldl (fun state question => stateOf (visitor.ask question state)) state

/-- Asks a question and notes what comes of it. -/
def note (visitor : Visitor ε σ ρ) (question : Question ρ) :
    EStateM ε (σ × List (Exchange ε ρ)) ρ :=
  fun (state, earlier) =>
    annotate (earlier ++ [⟨question, resultOf (visitor.ask question state)⟩])
      (visitor.ask question state)

/-- The visitor that notes, beside its state, every question that it is asked. -/
def listening (visitor : Visitor ε σ ρ) : Visitor ε (σ × List (Exchange ε ρ)) ρ where
  leaf value := visitor.note (.leaf value)
  node op left right := visitor.note (.node op left right)

/-- The visits that are made to a tree, in order. -/
def visits (visitor : Visitor ε σ ρ) (tree : Expr) (state : σ) : List (Exchange ε ρ) :=
  (stateOf (visitor.listening.accept tree (state, []))).2

theorem exchanges_append
    (visitor : Visitor ε σ ρ) (state : σ) (first second : List (Question ρ)) :
    visitor.exchanges state (first ++ second) =
      visitor.exchanges state first ++ visitor.exchanges (visitor.stateAfter state first) second := by
  induction first generalizing state with
  | nil =>
      rfl
  | cons question first ih =>
      rw [List.cons_append, exchanges, exchanges, ih]
      rfl

theorem stateAfter_append
    (visitor : Visitor ε σ ρ) (state : σ) (first second : List (Question ρ)) :
    visitor.stateAfter state (first ++ second) =
      visitor.stateAfter (visitor.stateAfter state first) second :=
  List.foldl_append

theorem map_token_exchanges
    (visitor : Visitor ε σ ρ) (state : σ) (questions : List (Question ρ)) :
    (visitor.exchanges state questions).map Exchange.token = questions.map Question.token := by
  induction questions generalizing state with
  | nil =>
      rfl
  | cons question rest ih =>
      rw [exchanges, List.map_cons, List.map_cons, ih]
      rfl

/-- The questions that a tree asks in a state: they go one of the ways its visits may
go, they leave the state that is left in the end, and a visitor that takes notes has
them noted and otherwise behaves alike. -/
structure Asks (visitor : Visitor ε σ ρ) (tree : Expr) (state : σ)
    (questions : List (Question ρ)) : Prop where
  course :
    tree.Course (visitor.exchanges state questions) (resultOf (visitor.accept tree state))
  ends :
    stateOf (visitor.accept tree state) = visitor.stateAfter state questions
  noted :
    ∀ earlier,
      visitor.listening.accept tree (state, earlier) =
        annotate (earlier ++ visitor.exchanges state questions) (visitor.accept tree state)

namespace Asks

variable {visitor : Visitor ε σ ρ} {op : Operator} {left right : Expr}
variable {state after later : σ} {first second : List (Question ρ)}
variable {atLeft atRight : ρ} {error : ε}

theorem leaf
    (visitor : Visitor ε σ ρ) (value : Value) (state : σ) :
    visitor.Asks (.number value) state [.leaf value] := by
  refine ⟨.leaf value _, rfl, ?_⟩
  intro earlier
  rfl

/-- After an error in the left subtree nothing is asked. -/
theorem stopLeft
    (hleft : visitor.Asks left state first)
    (hfails : visitor.accept left state = .error error after) :
    visitor.Asks (.binary op left right) state first := by
  obtain ⟨hcourse, hends, hnoted⟩ := hleft
  simp only [hfails] at hcourse hends hnoted
  have hrun : visitor.accept (.binary op left right) state = .error error after :=
    run_bind_of_error hfails _
  constructor
  · rw [hrun]
    exact .stopLeft hcourse
  · rw [hrun]
    exact hends
  · intro earlier
    rw [hrun]
    exact run_bind_of_error (hnoted earlier) _

/-- After an error in the right subtree nothing is asked. -/
theorem stopRight
    (hleft : visitor.Asks left state first) (hright : visitor.Asks right after second)
    (hanswers : visitor.accept left state = .ok atLeft after)
    (hfails : visitor.accept right after = .error error later) :
    visitor.Asks (.binary op left right) state (first ++ second) := by
  obtain ⟨hfirst, hafter, hnoted⟩ := hleft
  obtain ⟨hsecond, hlater, hboth⟩ := hright
  simp only [hanswers] at hfirst hafter hnoted
  simp only [hfails] at hsecond hlater hboth
  obtain rfl : after = visitor.stateAfter state first := hafter
  have hrun : visitor.accept (.binary op left right) state = .error error later :=
    (run_bind_of_ok hanswers _).trans (run_bind_of_error hfails _)
  constructor
  · rw [hrun, exchanges_append]
    exact .stopRight hfirst hsecond
  · rw [hrun, stateAfter_append]
    exact hlater
  · intro earlier
    rw [hrun, exchanges_append, ← List.append_assoc]
    exact (run_bind_of_ok (hnoted earlier) _).trans (run_bind_of_error (hboth _) _)

/-- When both subtrees are answered, the node is asked about, given the answers. -/
theorem node
    (hleft : visitor.Asks left state first) (hright : visitor.Asks right after second)
    (hanswers : visitor.accept left state = .ok atLeft after)
    (hanswersToo : visitor.accept right after = .ok atRight later) :
    visitor.Asks (.binary op left right) state
      (first ++ second ++ [.node op atLeft atRight]) := by
  obtain ⟨hfirst, hafter, hnoted⟩ := hleft
  obtain ⟨hsecond, hlater, hboth⟩ := hright
  simp only [hanswers] at hfirst hafter hnoted
  simp only [hanswersToo] at hsecond hlater hboth
  obtain rfl : after = visitor.stateAfter state first := hafter
  obtain rfl : later = visitor.stateAfter (visitor.stateAfter state first) second := hlater
  have hrun : visitor.accept (.binary op left right) state =
      visitor.node op atLeft atRight
        (visitor.stateAfter (visitor.stateAfter state first) second) :=
    (run_bind_of_ok hanswers _).trans (run_bind_of_ok hanswersToo _)
  constructor
  · rw [hrun, exchanges_append, exchanges_append, stateAfter_append]
    exact .node _ hfirst hsecond
  · rw [hrun, stateAfter_append, stateAfter_append]
    rfl
  · intro earlier
    rw [hrun, exchanges_append, exchanges_append, stateAfter_append, ← List.append_assoc,
      ← List.append_assoc]
    exact (run_bind_of_ok (hnoted earlier) _).trans (run_bind_of_ok (hboth _) _)

end Asks

theorem exists_questions
    (visitor : Visitor ε σ ρ) (tree : Expr) (state : σ) :
    ∃ questions, visitor.Asks tree state questions := by
  induction tree generalizing state with
  | number value =>
      exact ⟨_, .leaf visitor value state⟩
  | binary op left right ihLeft ihRight =>
      obtain ⟨first, hleft⟩ := ihLeft state
      cases hrunLeft : visitor.accept left state with
      | error error after =>
          exact ⟨_, hleft.stopLeft hrunLeft⟩
      | ok atLeft after =>
          obtain ⟨second, hright⟩ := ihRight after
          cases hrunRight : visitor.accept right after with
          | error error later =>
              exact ⟨_, hleft.stopRight hright hrunLeft hrunRight⟩
          | ok atRight later =>
              exact ⟨_, hleft.node hright hrunLeft hrunRight⟩

theorem Asks.visits_eq
    {visitor : Visitor ε σ ρ} {tree : Expr} {state : σ} {questions : List (Question ρ)}
    (hasks : visitor.Asks tree state questions) :
    visitor.visits tree state = visitor.exchanges state questions := by
  rw [visits, hasks.noted, stateOf_annotate, List.nil_append]

/-- The visitor that puts down the token of every leaf and node. -/
def collector : Visitor Empty Rpn Unit where
  leaf value := modify (· ++ [.number value])
  node op _ _ := modify (· ++ [.operator op])

theorem stateAfter_collector
    (rpn : Rpn) (questions : List (Question Unit)) :
    collector.stateAfter rpn questions = rpn ++ questions.map Question.token := by
  induction questions generalizing rpn with
  | nil =>
      exact (List.append_nil rpn).symm
  | cons question rest ih =>
      rw [List.map_cons, List.append_cons, ← ih]
      cases question <;> rfl

/-- What is put down is the tree in reverse Polish order. -/
theorem accept_collector
    (tree : Expr) (rpn : Rpn) :
    collector.accept tree rpn = .ok () (rpn ++ tree.toRpn) := by
  obtain ⟨questions, hcourse, hends, -⟩ := collector.exists_questions tree rpn
  cases hrun : collector.accept tree rpn with
  | error never _ =>
      cases never
  | ok _ after =>
      rw [hrun] at hcourse hends
      have htokens : questions.map Question.token = tree.toRpn := by
        rw [← map_token_exchanges collector rpn, hcourse.tokens_of_ok]
      rw [stateAfter_collector, htokens] at hends
      exact congrArg _ hends

/-- The visitor that evaluates. -/
def evaluator : Visitor EvalError (List Application) Value where
  leaf := pure
  node op left right := Application.make ⟨op, left, right⟩

theorem accept_evaluator
    (tree : Expr) :
    evaluator.accept tree = tree.evalM := by
  rfl

/-- For every tree and every visitor: noting the visits changes nothing else, each of
them is made in the state that the one before it left, they go one of the ways they
may go, in which a node is asked about given what came of its own subtrees, and they
come to the outcome, so that only the last one may fail.  All leaves and nodes are
visited, in reverse Polish order, or as many of them in this order as it takes to the
one that fails. -/
theorem visits_of_accept
    (visitor : Visitor ε σ ρ) (tree : Expr) (state : σ) :
    visitor.listening.accept tree (state, []) =
      annotate (visitor.visits tree state) (visitor.accept tree state) ∧
    (∃ questions,
      visitor.visits tree state = visitor.exchanges state questions ∧
      stateOf (visitor.accept tree state) = visitor.stateAfter state questions) ∧
    tree.Course (visitor.visits tree state) (resultOf (visitor.accept tree state)) ∧
    Exchange.ComeTo (visitor.visits tree state) (resultOf (visitor.accept tree state)) ∧
    (match resultOf (visitor.accept tree state) with
      | .ok _ => (visitor.visits tree state).map Exchange.token = tree.toRpn
      | .error _ => (visitor.visits tree state).map Exchange.token <+: tree.toRpn) := by
  obtain ⟨questions, hasks⟩ := visitor.exists_questions tree state
  have hcourse := hasks.course
  rw [hasks.visits_eq]
  refine ⟨hasks.noted [], ⟨questions, rfl, hasks.ends⟩, hcourse, hcourse.comeTo, ?_⟩
  cases hresult : resultOf (visitor.accept tree state) with
  | ok result =>
      rw [hresult] at hcourse
      exact hcourse.tokens_of_ok
  | error error =>
      exact hcourse.tokens_prefix

/-- In `1 / 0 + 1 % 0` the remainder is not asked about. -/
example :
    evaluator.visits
        (.binary .plus
          (.binary .divide (.number 1) (.number 0))
          (.binary .modulo (.number 1) (.number 0))) [] =
      [⟨.leaf 1, .ok 1⟩, ⟨.leaf 0, .ok 0⟩, ⟨.node .divide 1 0, .error .divisionByZero⟩] := by
  rfl

end Visitor
end InfixCalc
