import InfixCalc.Proofs.Conservation
import Mathlib.Data.List.Infix

/-!
# Reading a part of the tokens

A pass that gets through some tokens makes calls and comes to another state,
whatever tokens follow.  It gets through them unless they offend, and then what
follows does not matter either.

How much waits further out makes no difference to the calls, as long as the
parentheses fit: a part that may stand anywhere is read there as it is read at
the start.

* `Pending.Passes` : the calls made for some tokens, and the state after them.
* `Pending.passes_or_offends` : every part is passed or offends.
* `Pending.Passes.deeper` : a part is read the same way inside more levels.
-/

namespace InfixCalc

namespace Token

/-- How many parentheses more are opened than closed. -/
def balance (tokens : List Token) : Int :=
  tokens.count .opening - tokens.count .closing

@[simp] theorem balance_nil :
    balance [] = 0 := by
  rfl

@[simp] theorem balance_append
    (first second : List Token) :
    balance (first ++ second) = balance first + balance second := by
  simp only [balance, List.count_append]
  omega

@[simp] theorem balance_cons_number
    (value : Value) (rest : List Token) :
    balance (.number value :: rest) = balance rest := by
  simp [balance]

@[simp] theorem balance_cons_operator
    (op : Operator) (rest : List Token) :
    balance (.operator op :: rest) = balance rest := by
  simp [balance]

@[simp] theorem balance_cons_opening
    (rest : List Token) :
    balance (.opening :: rest) = balance rest + 1 := by
  simp [balance]
  omega

@[simp] theorem balance_cons_closing
    (rest : List Token) :
    balance (.closing :: rest) = balance rest - 1 := by
  simp [balance]
  omega

/-- At no place more than `limit` parentheses are open. -/
def NestsWithin (limit : Int) (tokens : List Token) : Prop :=
  ∀ before, before <+: tokens → balance before ≤ limit

instance (limit : Int) (tokens : List Token) :
    Decidable (NestsWithin limit tokens) :=
  decidable_of_iff (∀ before ∈ tokens.inits, balance before ≤ limit) (by simp [NestsWithin])

theorem NestsWithin.of_append
    {limit : Int} {first second : List Token}
    (hnests : NestsWithin limit (first ++ second)) :
    NestsWithin limit first ∧ NestsWithin (limit - balance first) second := by
  constructor
  · intro before hbefore
    exact hnests before (hbefore.trans (List.prefix_append first second))
  · intro before hbefore
    have hboth := hnests (first ++ before) ((List.prefix_append_right_inj first).mpr hbefore)
    rw [balance_append] at hboth
    omega

theorem NestsWithin.tail
    {limit : Int} {token : Token} {rest : List Token}
    (hnests : NestsWithin limit (token :: rest)) :
    NestsWithin (limit - balance [token]) rest := by
  exact (@NestsWithin.of_append limit [token] rest hnests).2

theorem NestsWithin.nonneg
    {limit : Int} {tokens : List Token}
    (hnests : NestsWithin limit tokens) :
    0 ≤ limit := by
  exact hnests [] List.nil_prefix

end Token

namespace Parse
namespace Pending

/-- The pass gets through `tokens` with the calls `made`, and comes from the
first state to the second. -/
inductive Passes : Pending → List Token → List Call → Pending → Prop
  | nil (pending : Pending) :
      Passes pending [] [] pending
  | number {pending after : Pending} {rest : List Token} {made : List Call} (value : Value) :
      Passes pending rest made after →
      Passes pending (.number value :: rest) (.operand value :: made) after
  | opening {inner : List Operator} {outer : List (List Operator)} {after : Pending}
      {rest : List Token} {made : List Call} :
      outer.length ≠ maxNesting →
      Passes ⟨[], inner :: outer⟩ rest made after →
      Passes ⟨inner, outer⟩ (.opening :: rest) made after
  | closing {inner level : List Operator} {outer : List (List Operator)} {after : Pending}
      {rest : List Token} {made : List Call} :
      Passes ⟨level, outer⟩ rest made after →
      Passes ⟨inner, level :: outer⟩ (.closing :: rest) (reductions inner ++ made) after
  | operator {inner : List Operator} {outer : List (List Operator)} {after : Pending}
      {rest : List Token} {made : List Call} (op : Operator) :
      Passes ⟨op :: staying op inner, outer⟩ rest made after →
      Passes ⟨inner, outer⟩ (.operator op :: rest) (reductions (giving op inner) ++ made) after

namespace Passes

variable {pending between after : Pending} {tokens second : List Token}
variable {made later : List Call}

theorem append
    (hfirst : Passes pending tokens made between)
    (hsecond : Passes between second later after) :
    Passes pending (tokens ++ second) (made ++ later) after := by
  induction hfirst with
  | nil pending =>
      exact hsecond
  | number value _ ih =>
      exact .number value (ih hsecond)
  | opening hdepth _ ih =>
      exact .opening hdepth (ih hsecond)
  | closing _ ih =>
      rw [List.append_assoc]
      exact .closing (ih hsecond)
  | operator op _ ih =>
      rw [List.append_assoc]
      exact .operator op (ih hsecond)

/-- The calls of the pass are those made for the part, and then those on the
rest from the state after it. -/
theorem calls_append
    (hpasses : Passes pending tokens made after) (rest : List Token) :
    pending.calls (tokens ++ rest) = made ++ after.calls rest := by
  induction hpasses with
  | nil pending =>
      rfl
  | number value _ ih =>
      simp [ih]
  | opening hdepth _ ih =>
      simp [calls_opening, hdepth, ih]
  | closing _ ih =>
      simp [ih]
  | operator op _ ih =>
      simp [ih]

/-- The scan of the parentheses finds no offence in the part. -/
theorem bracketError?_append
    (hpasses : Passes pending tokens made after) (rest : List Token) :
    bracketError? pending.depth (tokens ++ rest) = bracketError? after.depth rest := by
  induction hpasses with
  | nil pending =>
      rfl
  | number value _ ih =>
      rw [List.cons_append, bracketError?]
      exact ih
  | opening hdepth _ ih =>
      rw [List.cons_append, bracketError?]
      exact (if_neg hdepth).trans ih
  | closing _ ih =>
      exact ih
  | operator op _ ih =>
      rw [List.cons_append, bracketError?]
      exact ih

theorem depth_eq
    (hpasses : Passes pending tokens made after) :
    (after.depth : Int) = pending.depth + Token.balance tokens := by
  induction hpasses with
  | nil pending =>
      simp
  | number value _ ih =>
      simpa using ih
  | opening hdepth _ ih =>
      simp [depth] at ih ⊢
      omega
  | closing _ ih =>
      simp [depth] at ih ⊢
      omega
  | operator op _ ih =>
      simpa [depth] using ih

/-- The calls have the operands of the part, in the same order. -/
theorem values_eq
    (hpasses : Passes pending tokens made after) :
    Token.values (Call.tokens made) = Token.values tokens := by
  induction hpasses with
  | nil pending =>
      rfl
  | number value _ ih =>
      simp [ih]
  | opening hdepth _ ih =>
      simp [ih]
  | closing _ ih =>
      simp [ih]
  | operator op _ ih =>
      simp [ih]

/-- Inside more levels the same calls are made, if the parentheses fit there. -/
theorem deeper
    {limit : Int} (hpasses : Passes pending tokens made after) (base : List (List Operator))
    (hnests : Token.NestsWithin limit tokens)
    (hroom : pending.depth + base.length + limit ≤ maxNesting) :
    Passes ⟨pending.inner, pending.outer ++ base⟩ tokens made
      ⟨after.inner, after.outer ++ base⟩ := by
  induction hpasses generalizing limit with
  | nil pending =>
      exact .nil _
  | number value _ ih =>
      have hrest := hnests.tail
      simp only [Token.balance_cons_number, Token.balance_nil] at hrest
      exact .number value (ih hrest (by omega))
  | opening hdepth _ ih =>
      have hrest := hnests.tail
      have hopened := hrest.nonneg
      simp only [Token.balance_cons_opening, Token.balance_nil] at hrest hopened
      simp only [depth] at hroom ih
      refine .opening ?_ (ih hrest ?_)
      · simp only [List.length_append]
        omega
      · simp only [List.length_cons]
        omega
  | closing _ ih =>
      have hrest := hnests.tail
      simp only [Token.balance_cons_closing, Token.balance_nil] at hrest
      simp only [depth, List.length_cons] at hroom ih
      exact .closing (ih hrest (by omega))
  | operator op _ ih =>
      have hrest := hnests.tail
      simp only [Token.balance_cons_operator, Token.balance_nil] at hrest
      simp only [depth] at hroom ih
      exact .operator op (ih hrest (by omega))

/-- A group leaves the state as it found it, and its closing parenthesis reduces
what the group left waiting. -/
theorem group
    {inner left : List Operator} {outer : List (List Operator)}
    (hdepth : outer.length ≠ maxNesting)
    (hinside : Passes ⟨[], inner :: outer⟩ tokens made ⟨left, inner :: outer⟩) :
    Passes ⟨inner, outer⟩ (.opening :: tokens ++ [.closing]) (made ++ reductions left)
      ⟨inner, outer⟩ := by
  have hclosing : Passes ⟨left, inner :: outer⟩ [.closing] (reductions left ++ [])
      ⟨inner, outer⟩ :=
    .closing (.nil _)
  rw [List.append_nil] at hclosing
  exact .opening hdepth (hinside.append hclosing)

end Passes

/-- The pass gets through some tokens, or they offend before anything behind
them is looked at. -/
theorem passes_or_offends
    (tokens : List Token) (pending : Pending) :
    (∃ made after, Passes pending tokens made after) ∨
      ∃ error, ∀ rest, bracketError? pending.depth (tokens ++ rest) = some error := by
  induction tokens generalizing pending with
  | nil =>
      exact Or.inl ⟨[], pending, .nil pending⟩
  | cons token tokens ih =>
      obtain ⟨inner, outer⟩ := pending
      cases token with
      | number value =>
          rcases ih ⟨inner, outer⟩ with ⟨made, after, hpasses⟩ | ⟨error, hoffends⟩
          · exact Or.inl ⟨_, after, .number value hpasses⟩
          · refine Or.inr ⟨error, fun rest => ?_⟩
            rw [List.cons_append, bracketError?]
            exact hoffends rest
      | opening =>
          by_cases hdepth : outer.length = maxNesting
          · refine Or.inr ⟨.nestingTooDeep maxNesting, fun rest => ?_⟩
            rw [List.cons_append, bracketError?]
            exact if_pos hdepth
          · rcases ih ⟨[], inner :: outer⟩ with ⟨made, after, hpasses⟩ | ⟨error, hoffends⟩
            · exact Or.inl ⟨_, after, .opening hdepth hpasses⟩
            · refine Or.inr ⟨error, fun rest => ?_⟩
              rw [List.cons_append, bracketError?]
              exact (if_neg hdepth).trans (hoffends rest)
      | closing =>
          cases outer with
          | nil =>
              exact Or.inr ⟨.unbalancedParenthesis, fun rest => rfl⟩
          | cons level outer =>
              rcases ih ⟨level, outer⟩ with ⟨made, after, hpasses⟩ | ⟨error, hoffends⟩
              · exact Or.inl ⟨_, after, .closing hpasses⟩
              · exact Or.inr ⟨error, hoffends⟩
      | operator op =>
          rcases ih ⟨op :: staying op inner, outer⟩ with
            ⟨made, after, hpasses⟩ | ⟨error, hoffends⟩
          · exact Or.inl ⟨_, after, .operator op hpasses⟩
          · refine Or.inr ⟨error, fun rest => ?_⟩
            rw [List.cons_append, bracketError?]
            exact hoffends rest
      | bottom =>
          refine Or.inr ⟨.unexpectedToken .bottom, fun rest => ?_⟩
          rw [List.cons_append, bracketError?]

end Pending
end Parse
end InfixCalc
