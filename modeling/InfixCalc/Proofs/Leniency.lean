import InfixCalc.Proofs.Acceptance
import InfixCalc.Proofs.Padding
import InfixCalc.Proofs.Places

/-!
# The leniency is bounded

Only reductions after the last token may take operands to be zero, and a run makes at
most three of them, in falling ranks.  Once the first of them is made, there is always a
subtree on the stack, so a tree has at most four zeros that no token stands for.

An operator in parentheses that are closed, or one that is followed at its level by an
operator that does not bind tighter, is reduced while tokens are being read, and then a
missing operand is an error.

* `GivesWay` : what makes an operator give way to the last of some tokens.
* `Waiters.reduction_of_givesWay` : it is reduced while they are being read.
* `TreeBuilder.zerosIn_of_ofInfix` : the zeros of a tree.
* `leniency_bounded` : the bounds for every run and every token list.
-/

namespace InfixCalc

namespace Token

/-- Every parenthesis that is opened is closed, and no other is: the tokens end at the
level where they begin. -/
structure IsLevel (tokens : List Token) : Prop where
  settled : balance tokens = 0
  /-- None of them stands further out. -/
  nonneg (before : List Token) :
    before <+: tokens →
    0 ≤ balance before

instance (tokens : List Token) :
    Decidable (IsLevel tokens) :=
  decidable_of_iff (balance tokens = 0 ∧ ∀ before ∈ tokens.inits, 0 ≤ balance before)
    ⟨fun hlevel => ⟨hlevel.1, by simpa using hlevel.2⟩,
      fun hlevel => ⟨hlevel.settled, by simpa using hlevel.nonneg⟩⟩

end Token

namespace Parse

/-- The operator at a place gives way to the last of the tokens. -/
inductive GivesWay (op : Operator) (place : Nat) : List Token → Prop
  /-- It stands in parentheses that the last token closes. -/
  | closed (before first second : List Token) :
      (before ++ .opening :: first).length = place →
      Token.IsLevel (first ++ .operator op :: second) →
      GivesWay op place (before ++ .opening :: (first ++ .operator op :: second) ++ [.closing])
  /-- The last token follows it at its level, and is an operator that does not bind
  tighter. -/
  | followed (before between : List Token) (later : Operator) :
      before.length = place →
      Token.IsLevel between →
      later.rank ≤ op.rank →
      GivesWay op place (before ++ .operator op :: between ++ [.operator later])

/-- Nothing in `front` offends when `rest` follows. -/
def InOrder (depth : Nat) (front rest : List Token) : Prop :=
  ∀ index < front.length,
    offence? ((front.take index).foldl depthAfter depth) (front.drop index ++ rest) = none

instance (depth : Nat) (front rest : List Token) :
    Decidable (InOrder depth front rest) :=
  inferInstanceAs (Decidable (∀ index < front.length, _))

namespace Waiters

/-- An operator that gives way is reduced while tokens are being read. -/
theorem reduction_of_givesWay
    {op : Operator} {place : Nat} {front : List Token} {made : List Due} {after : Waiters}
    (hgives : GivesWay op place front)
    (hreads : Reads 0 start front made after) :
    ⟨place, .reduce op⟩ ∈ made := by
  cases hgives with
  | closed before first second hplace hlevel =>
      have hfirst := hlevel.nonneg first (List.prefix_append _ _)
      have hsettled := hlevel.settled
      have hfront :
          before ++ Token.opening :: (first ++ Token.operator op :: second) ++ [Token.closing] =
            (before ++ Token.opening :: first) ++
              Token.operator op :: (second ++ [Token.closing]) := by
        simp
      rw [hfront] at hreads
      obtain ⟨early, waiters, later, _, hsecond, rfl⟩ := hreads.split
      rw [Nat.zero_add, hplace] at hsecond
      refine List.mem_append_right _ ?_
      cases hsecond with
      | cons hread hrest =>
          refine List.mem_append_right _ ?_
          rcases (Holds.of_read hread).reads hrest with hmade | ⟨left, hleft, _⟩
          · exact hmade
          · -- the level cannot go on behind the parenthesis that closes it
            rw [Token.balance_append, Token.balance_cons_operator] at hsettled
            rw [Token.balance_append, Token.balance_cons_closing, Token.balance_nil] at hleft
            omega
  | followed before between later hplace hlevel hrank =>
      rw [List.append_assoc] at hreads
      obtain ⟨early, waiters, late, _, hsecond, rfl⟩ := hreads.split
      rw [Nat.zero_add, hplace] at hsecond
      refine List.mem_append_right _ ?_
      cases hsecond with
      | cons hread hrest =>
          refine List.mem_append_right _ ?_
          obtain ⟨inside, waits, last, hinside, hlast, rfl⟩ := hrest.split
          rcases (Holds.of_read hread).reads hinside with hmade | ⟨left, hleft, hholds⟩
          · exact List.mem_append_left _ hmade
          · obtain rfl : left = 0 := by
              rw [hlevel.settled] at hleft
              omega
            cases hlast with
            | cons hover _ =>
                exact List.mem_append_right _ (List.mem_append_left _ (hholds.overtaken hrank))

theorem mem_dues_of_givesWay
    {op : Operator} {place : Nat} {front : List Token} {made : List Due} {after : Waiters}
    (hgives : GivesWay op place front)
    (hreads : Reads 0 start front made after) (rest : List Token) :
    ⟨place, .reduce op⟩ ∈ start.dues 0 (front ++ rest) := by
  rw [hreads.dues_append]
  exact List.mem_append_left _ (reduction_of_givesWay hgives hreads)

/-- A token that does not offend is read, and the parentheses stay counted. -/
theorem read_of_inOrder
    {waiters : Waiters} {token : Token} {rest : List Token}
    (hnone : offence? waiters.outer.length (token :: rest) = none) (place : Nat) :
    ∃ after,
      (waiters.read place token).2 = some after ∧
      after.outer.length = depthAfter waiters.outer.length token := by
  obtain ⟨inner, outer⟩ := waiters
  cases token with
  | number value =>
      exact ⟨⟨inner, outer⟩, rfl, rfl⟩
  | opening =>
      by_cases hdepth : outer.length = 18
      · cases (if_pos hdepth).symm.trans hnone
      · exact ⟨⟨[], inner :: outer⟩, if_neg hdepth, rfl⟩
  | closing =>
      cases outer with
      | nil =>
          cases hnone
      | cons level outer =>
          exact ⟨⟨level, outer⟩, rfl, rfl⟩
  | operator op =>
      exact ⟨_, rfl, rfl⟩
  | bottom =>
      cases hnone

theorem reads_of_inOrder
    {front rest : List Token} {waiters : Waiters}
    (horder : InOrder waiters.outer.length front rest) (place : Nat) :
    ∃ made after, Reads place waiters front made after := by
  induction front generalizing place waiters with
  | nil =>
      exact ⟨[], waiters, .nil place waiters⟩
  | cons token front ih =>
      have hnone := horder 0 (Nat.succ_pos front.length)
      obtain ⟨between, hread, hdepth⟩ := read_of_inOrder hnone place
      have hlater : InOrder between.outer.length front rest := by
        intro index hindex
        rw [hdepth]
        exact horder (index + 1) (Nat.succ_lt_succ hindex)
      obtain ⟨made, after, hreads⟩ := ih hlater (place + 1)
      exact ⟨_, after, .cons hread hreads⟩

end Waiters

namespace TreeBuilder

/-- While tokens are being read no operand is taken to be zero. -/
theorem zerosIn_of_inStream
    {calls : List Call} {subtrees : List Subtree}
    (hcalls : ∀ call ∈ calls, call.inStream) :
    zerosIn (treeBuilder.recordsOf subtrees calls) = 0 := by
  refine zerosIn_eq_zero ?_
  intro record hrecord
  obtain ⟨reply, hreply, hrecord⟩ := List.mem_flatMap.mp hrecord
  exact level_of_mem_replies hcalls hreply record hrecord

/-- Of the reductions after the last token, the first may miss two operands and each
other one. -/
theorem zerosIn_le_of_trailing
    {left : List Operator} {before after : List Subtree}
    (hok : treeBuilder.attemptAll before (Pending.trailingReductions left) = .ok after) :
    zerosIn (treeBuilder.recordsOf before (Pending.trailingReductions left)) ≤
      left.length + 1 := by
  have hlength := length_of_replies hok
  simp only [Pending.tokens_trailingReductions, Token.operators_map_operator,
    Token.values_map_operator, List.length_nil] at hlength
  by_cases hempty : left = []
  · subst hempty
    exact Nat.zero_le 1
  · have hafter := length_of_trailing hok hempty
    omega

/-- Any calls of the pass that are not refused take at most four operands to be
zero. -/
theorem zerosIn_le_four
    {tokens : List Token} {after : List Subtree}
    (hscan : bracketError? 0 tokens = none)
    (hok : treeBuilder.attemptAll [] (Pending.start.calls tokens) = .ok after) :
    zerosIn (treeBuilder.recordsOf [] (Pending.start.calls tokens)) ≤ 4 := by
  obtain ⟨early, left, hcalls, hearly⟩ :=
    Pending.calls_eq_append (@Pending.completes_of_scan tokens .start hscan)
  have hfew := (Pending.descends_trailing .start tokens).length_le
  have hlength := length_of_replies hok
  rw [hcalls] at hok hfew hlength ⊢
  rw [Builder.attemptAll_append] at hok
  obtain ⟨between, hfirst, hlast⟩ := bind_eq_ok.mp hok
  have hlengthFirst := length_of_replies hfirst
  have hlengthLast := length_of_replies hlast
  have hnone : zerosIn (treeBuilder.recordsOf [] early) = 0 := zerosIn_of_inStream hearly
  have hzeros := zerosIn_le_of_trailing hlast
  simp only [Call.tokens_append, Pending.tokens_trailingReductions, Token.operators_append,
    Token.operators_map_operator, Token.values_append, Token.values_map_operator,
    Call.trailing_append, Call.trailing_trailingReductions, List.length_append,
    List.length_nil] at hlength hlengthFirst hlengthLast hfew
  omega

/-- The zeros of a tree that no token stands for are as many as the operands that are
missing, and at most four. -/
theorem zerosIn_of_ofInfix
    {tokens : List Token} {tree : Expr}
    (htree : Expr.ofInfix tokens = .ok tree) :
    zerosIn (treeRun tokens).records =
        (Token.operators tokens).length + 1 - (Token.values tokens).length ∧
      zerosIn (treeRun tokens).records ≤ 4 := by
  obtain ⟨hscan, top, below, hcalls, _⟩ := attemptAll_of_ofInfix htree
  have hcompletes : Pending.start.Completes tokens := Pending.completes_of_scan hscan
  have hmade : (treeRun tokens).calls = Pending.start.calls tokens := by
    rw [treeRun, calls_run]
    exact Builder.made_of_ok hcalls
  rw [zerosIn_run, hmade]
  refine ⟨?_, zerosIn_le_four hscan hcalls⟩
  obtain ⟨count, _, hcount, hsingle⟩ := forest_of_pass hcompletes hcalls
  have hlength := length_of_replies hcalls
  have hoperators := (Pending.operators_calls hcompletes).length_eq
  rw [Pending.waiting_start, List.nil_append] at hoperators
  rw [Pending.values_calls hcompletes, hoperators] at hlength hcount
  simp only [List.length_cons, List.length_nil] at hlength hcount hsingle
  rw [initial_treeBuilder]
  omega

/-- A call that takes an operand to be zero is a reduction after the last token. -/
theorem eq_trailing_of_zeros
    {call : Call} {subtrees : List Subtree}
    (hzeros : 0 < zerosIn (treeBuilder.perform call subtrees).records) :
    ∃ op, call = .reduceTrailing op := by
  rw [zerosIn_perform] at hzeros
  cases call with
  | operand value =>
      cases hzeros
  | reduce op =>
      cases hzeros
  | reduceTrailing op =>
      exact ⟨op, rfl⟩

end TreeBuilder

/-- A reduction in the stream that is short of operands is the end of the tree. -/
theorem ofInfix_of_short
    {tokens : List Token} {earlier later : List Call} {op : Operator}
    (hcalls : Pending.start.calls tokens = earlier ++ .reduce op :: later)
    (haccepted : ∀ reply ∈ treeBuilder.replies treeBuilder.initial earlier,
      reply.failure? = none)
    (hshort : (treeBuilder.stateAfter treeBuilder.initial earlier).length < 2) :
    Expr.ofInfix tokens = .error (.missingOperand op) := by
  have hearlier := Builder.attemptAll_of_accepted haccepted
  rw [initial_treeBuilder] at hearlier hshort
  refine ofInfix_of_refused ?_
  rw [hcalls, Builder.attemptAll_append, hearlier, ok_bind, Builder.attemptAll_cons,
    TreeBuilder.attempt_reduce_of_short hshort, error_bind]

/-- How far the leniency goes: what the calls of the pass, each with the place of its
token, may take to be zero. -/
structure LeniencyBounded (tokens : List Token) : Prop where
  /-- A tree has at most four zeros that no token stands for: as many as there are
  operands missing. -/
  few_zeros (tree : Expr) :
    Expr.ofInfix tokens = .ok tree →
    TreeBuilder.zerosIn (treeRun tokens).records ≤ 4 ∧
      TreeBuilder.zerosIn (treeRun tokens).records =
        (Token.operators tokens).length + 1 - (Token.values tokens).length
  /-- Every call is for the token at its place. -/
  for_token (due : Due) :
    due ∈ Waiters.start.dues 0 tokens →
    tokens[due.place]? = some due.call.token
  /-- No two calls are for the same place. -/
  for_one_place :
    ((Waiters.start.dues 0 tokens).map Due.place).Nodup
  /-- An operator whose call takes an operand to be zero gives way to no token. -/
  lenient (earlier later : List Due) (due : Due) :
    Waiters.start.dues 0 tokens = earlier ++ due :: later →
    0 < TreeBuilder.zerosIn
      (treeBuilder.perform due.call
        (treeBuilder.stateAfter treeBuilder.initial (earlier.map Due.call))).records →
    ∀ op front rest,
      tokens = front ++ rest →
      ¬ GivesWay op due.place front
  /-- If the tokens up to the one that it gives way to are in order, an operator is
  reduced in the stream.  If it is short of operands then, and no call was refused
  before, it is the missing operand that the tree fails with. -/
  strict (front rest : List Token) (op : Operator) (place : Nat) :
    tokens = front ++ rest →
    GivesWay op place front →
    InOrder 0 front rest →
    ∃ earlier later,
      Waiters.start.dues 0 tokens = earlier ++ ⟨place, .reduce op⟩ :: later ∧
      ((∀ reply ∈ treeBuilder.replies treeBuilder.initial (earlier.map Due.call),
          reply.failure? = none) →
        (treeBuilder.stateAfter treeBuilder.initial (earlier.map Due.call)).length < 2 →
        Expr.ofInfix tokens = .error (.missingOperand op))

variable {σ α : Type}

/-- On any builder a run makes at most three reductions after the last token, in strictly
falling ranks; and its calls are those that `LeniencyBounded` speaks of, as far as it
gets. -/
theorem leniency_bounded
    (builder : Builder σ α) (tokens : List Token) :
    (Call.trailing (run builder tokens).calls).length ≤ 3 ∧
    (Call.trailing (run builder tokens).calls).Pairwise
      (fun earlier later => later.rank < earlier.rank) ∧
    (run builder tokens).calls <+: (Waiters.start.dues 0 tokens).map Due.call ∧
    LeniencyBounded tokens := by
  have hdues : (Waiters.start.dues 0 tokens).map Due.call = Pending.start.calls tokens :=
    Waiters.map_call_dues 0 .start tokens
  obtain ⟨hfew, hdescends⟩ := trailing_run builder tokens
  refine ⟨hfew, hdescends, ?_, ?_⟩
  · rw [calls_run, hdues]
    exact builder.made_prefix _ _
  constructor
  case few_zeros =>
    intro tree htree
    exact (TreeBuilder.zerosIn_of_ofInfix htree).symm
  case for_token =>
    intro due hdue
    rcases Waiters.call_of_mem_dues hdue with ⟨waiter, hnone, _⟩ | ⟨index, hplace, htoken⟩
    · cases hnone
    · rw [hplace, Nat.zero_add]
      exact htoken
  case for_one_place =>
    exact Waiters.nodup_dues tokens
  case lenient =>
    rintro earlier later ⟨place, call⟩ hsplit hzeros op front rest rfl hgives
    obtain ⟨last, rfl⟩ := TreeBuilder.eq_trailing_of_zeros hzeros
    have hlast : ⟨place, .reduceTrailing last⟩ ∈ Waiters.start.dues 0 (front ++ rest) := by
      rw [hsplit]
      exact List.mem_append_right _ List.mem_cons_self
    obtain ⟨made, after, hreads, _⟩ := Waiters.reads_of_trailing hlast
    obtain ⟨first, between, second, hfront, _, _⟩ := hreads.split
    have hreduced := Waiters.mem_dues_of_givesWay hgives hfront rest
    cases List.inj_on_of_nodup_map (Waiters.nodup_dues (front ++ rest)) hlast hreduced rfl
  case strict =>
    rintro front rest op place rfl hgives horder
    obtain ⟨made, after, hreads⟩ := @Waiters.reads_of_inOrder front rest .start horder 0
    obtain ⟨earlier, later, hsplit⟩ :=
      List.append_of_mem (Waiters.mem_dues_of_givesWay hgives hreads rest)
    refine ⟨earlier, later, hsplit, ?_⟩
    intro haccepted hshort
    refine @ofInfix_of_short _ _ (later.map Due.call) _ ?_ haccepted hshort
    rw [← hdues, hsplit, List.map_append, List.map_cons]

/-- Of the operators of `+ * ^` each waits for the end, and four zeros make a tree of
them.  The sum of `( 3 + ) * 2` gives way to the parenthesis, and lacks an operand. -/
theorem leniency_bounded_operators_alone :
    Expr.ofInfix [.operator .plus, .operator .times, .operator .power] =
      .ok (.binary .plus (.number 0)
        (.binary .times (.number 0) (.binary .power (.number 0) (.number 0)))) ∧
    TreeBuilder.zerosIn
      (treeRun [.operator .plus, .operator .times, .operator .power]).records = 4 ∧
    GivesWay .plus 2 [.opening, .number 3, .operator .plus, .closing] ∧
    Expr.ofInfix
        [.opening, .number 3, .operator .plus, .closing, .operator .times, .number 2] =
      .error (.missingOperand .plus) := by
  have htree :
      Expr.ofInfix [.operator .plus, .operator .times, .operator .power] =
        .ok (.binary .plus (.number 0)
          (.binary .times (.number 0) (.binary .power (.number 0) (.number 0)))) := by
    rfl
  have hgives : GivesWay .plus 2 [.opening, .number 3, .operator .plus, .closing] :=
    .closed [] [.number 3] [] rfl (by decide)
  obtain ⟨_, _, _, halone⟩ := leniency_bounded (Builder.counter none)
    [.operator .plus, .operator .times, .operator .power]
  obtain ⟨_, _, _, hgroup⟩ := leniency_bounded (Builder.counter none)
    [.opening, .number 3, .operator .plus, .closing, .operator .times, .number 2]
  obtain ⟨earlier, later, hsplit, hfails⟩ :=
    hgroup.strict _ [.operator .times, .number 2] .plus 2 rfl hgives (by decide)
  have hdues : Waiters.start.dues 0
      [.opening, .number 3, .operator .plus, .closing, .operator .times, .number 2] =
        [⟨1, .operand 3⟩, ⟨2, .reduce .plus⟩, ⟨5, .operand 2⟩, ⟨4, .reduceTrailing .times⟩] := by
    rfl
  have hearlier : earlier = [⟨1, .operand 3⟩] := by
    rw [hdues] at hsplit
    rcases earlier with _ | ⟨first, _ | ⟨second, _ | ⟨third, _ | ⟨fourth, rest⟩⟩⟩⟩ <;>
      simp_all
  subst hearlier
  exact ⟨htree, (halone.few_zeros _ htree).2, hgives, hfails (by decide) (by decide)⟩

end Parse
end InfixCalc
