import InfixCalc.Proofs.Failures

/-!
# What the parentheses decide

A scan from left to right that only counts open parentheses has a first
offence, or none.  The sequence in reverse Polish order has the error of that
offence, and exists if there is none.  The tree has the same error, unless its
builder refused a call before; what the builder can object to are missing
operands and too many levels, and an empty expression at the end.

* `FirstOffence` : the first offence of a token list.
* `bracketError?_eq_some_iff` : the scan finds it.
* `scan_decides` : the two results of every token list.
-/

namespace InfixCalc
namespace Parse

/-- The number of open parentheses after a token. -/
def depthAfter (depth : Nat) : Token → Nat
  | .opening => depth + 1
  | .closing => depth - 1
  | _ => depth

/-- What offends at the first of the tokens that are left, or at their end. -/
def offence? (depth : Nat) : List Token → Option ParseError
  | [] => if depth = 0 then none else some .unbalancedParenthesis
  | .bottom :: _ => some (.unexpectedToken .bottom)
  | .closing :: _ => if depth = 0 then some .unbalancedParenthesis else none
  | .opening :: _ => if depth = 18 then some (.nestingTooDeep 18) else none
  | _ => none

/-- Behind some tokens `error` is the offence, and nothing offends before. -/
def FirstOffence (depth : Nat) (tokens : List Token) (error : ParseError) : Prop :=
  ∃ before rest,
    tokens = before ++ rest ∧
    offence? (before.foldl depthAfter depth) rest = some error ∧
    ∀ earlier later,
      before = earlier ++ later →
      later ≠ [] →
      offence? (earlier.foldl depthAfter depth) (later ++ rest) = none

theorem offence?_eq_some
    {depth : Nat} {tokens : List Token} {error : ParseError}
    (hoffence : offence? depth tokens = some error) :
    error = .unexpectedToken .bottom ∨
      error = .unbalancedParenthesis ∨
      error = .nestingTooDeep 18 := by
  unfold offence? at hoffence
  split at hoffence
  · split at hoffence <;> simp_all
  · simp_all
  · split at hoffence <;> simp_all
  · split at hoffence <;> simp_all
  · cases hoffence

theorem bracketError?_of_offence
    {depth : Nat} {tokens : List Token} {error : ParseError}
    (hoffence : offence? depth tokens = some error) :
    bracketError? depth tokens = some error := by
  cases tokens with
  | nil =>
      cases depth with
      | zero =>
          cases hoffence
      | succ depth =>
          exact hoffence
  | cons token rest =>
      cases token with
      | bottom =>
          rwa [bracketError?]
      | closing =>
          cases depth with
          | zero =>
              exact hoffence
          | succ depth =>
              cases hoffence
      | opening =>
          rw [bracketError?]
          by_cases hdepth : depth = 18
          · exact (if_pos hdepth).trans ((if_pos hdepth).symm.trans hoffence)
          · cases (if_neg hdepth).symm.trans hoffence
      | number value =>
          cases hoffence
      | operator op =>
          cases hoffence

theorem bracketError?_cons
    {depth : Nat} {token : Token} {rest : List Token}
    (hnone : offence? depth (token :: rest) = none) :
    bracketError? depth (token :: rest) = bracketError? (depthAfter depth token) rest := by
  cases token with
  | bottom =>
      cases hnone
  | closing =>
      cases depth with
      | zero =>
          cases hnone
      | succ depth =>
          rfl
  | opening =>
      rw [bracketError?]
      by_cases hdepth : depth = 18
      · cases (if_pos hdepth).symm.trans hnone
      · exact if_neg hdepth
  | number value =>
      rw [bracketError?, depthAfter]
      all_goals simp
  | operator op =>
      rw [bracketError?, depthAfter]
      all_goals simp

/-- The scan finds the first offence. -/
theorem bracketError?_eq_some_iff
    {depth : Nat} {tokens : List Token} {error : ParseError} :
    bracketError? depth tokens = some error ↔ FirstOffence depth tokens error := by
  constructor
  · intro hscan
    induction tokens generalizing depth with
    | nil =>
        cases depth with
        | zero =>
            cases hscan
        | succ depth =>
            refine ⟨[], [], rfl, hscan, ?_⟩
            intro earlier later hsplit hlater
            exact absurd (List.append_eq_nil_iff.mp hsplit.symm).2 hlater
    | cons token rest ih =>
        cases hoffence : offence? depth (token :: rest) with
        | some found =>
            rw [bracketError?_of_offence hoffence] at hscan
            cases hscan
            refine ⟨[], token :: rest, rfl, hoffence, ?_⟩
            intro earlier later hsplit hlater
            exact absurd (List.append_eq_nil_iff.mp hsplit.symm).2 hlater
        | none =>
            rw [bracketError?_cons hoffence] at hscan
            obtain ⟨before, after, rfl, hfound, hfirst⟩ := ih hscan
            refine ⟨token :: before, after, rfl, hfound, ?_⟩
            intro earlier later hsplit hlater
            cases earlier with
            | nil =>
                rw [List.nil_append] at hsplit
                rw [← hsplit]
                exact hoffence
            | cons head earlier =>
                injection hsplit with hhead hsplit
                subst hhead
                exact hfirst earlier later hsplit hlater
  · rintro ⟨before, rest, rfl, hfound, hfirst⟩
    induction before generalizing depth with
    | nil =>
        exact bracketError?_of_offence hfound
    | cons token before ih =>
        have hnone := hfirst [] (token :: before) rfl (List.cons_ne_nil token before)
        refine (bracketError?_cons hnone).trans (ih hfound ?_)
        intro earlier later hsplit hlater
        exact hfirst (token :: earlier) later (congrArg (token :: ·) hsplit) hlater

theorem bracketError?_eq_none
    {tokens : List Token}
    (hnone : ∀ error, ¬ FirstOffence 0 tokens error) :
    bracketError? 0 tokens = none := by
  rw [Option.eq_none_iff_forall_ne_some]
  intro error hscan
  exact hnone error (bracketError?_eq_some_iff.mp hscan)

/-- The errors with which the builder of trees refuses a call. -/
inductive IsRefusal (tokens : List Token) : ParseError → Prop
  | missingOperand {op : Operator} :
      op ∈ Token.operators tokens →
      IsRefusal tokens (.missingOperand op)
  | treeTooDeep :
      IsRefusal tokens (.treeTooDeep 2048)

theorem isRefusal_of_attemptAll
    {tokens : List Token} {error : ParseError}
    (herror : treeBuilder.attemptAll [] (Pending.start.calls tokens) = .error error) :
    IsRefusal tokens error := by
  rcases TreeBuilder.attemptAll_eq_error herror with rfl | ⟨op, hcall, rfl⟩
  · exact .treeTooDeep
  · exact .missingOperand (Pending.mem_of_mem_calls rfl hcall)

/-- What the parentheses of a token list decide about its two results. -/
structure ScanDecides (tokens : List Token) : Prop where
  /-- The first offence is the error of the sequence, and of the tree unless a
  call is refused before. -/
  offence (error : ParseError) :
    FirstOffence 0 tokens error →
    Rpn.ofInfix tokens = .error error ∧
      ∃ found,
        Expr.ofInfix tokens = .error found ∧
        (found = error ∨ IsRefusal tokens found)
  /-- There are three kinds of offences. -/
  kinds (error : ParseError) :
    FirstOffence 0 tokens error →
    error = .unexpectedToken .bottom ∨
      error = .unbalancedParenthesis ∨
      error = .nestingTooDeep 18
  /-- Without an offence there is a sequence, and a tree unless a call is
  refused or there is nothing to build. -/
  inOrder :
    (∀ error, ¬ FirstOffence 0 tokens error) →
    (∃ rpn, Rpn.ofInfix tokens = .ok rpn) ∧
      ((∃ tree, Expr.ofInfix tokens = .ok tree) ∨
        ∃ found,
          Expr.ofInfix tokens = .error found ∧
          (found = .emptyExpression ∨ IsRefusal tokens found))
  /-- There is nothing to build just when there are only parentheses. -/
  nothing :
    (∀ error, ¬ FirstOffence 0 tokens error) →
    (Expr.ofInfix tokens = .error .emptyExpression ↔
      Token.values tokens = [] ∧ Token.operators tokens = [])

/-- The first offence of the parentheses decides the results of every token
list. -/
theorem scan_decides
    (tokens : List Token) :
    ScanDecides tokens := by
  constructor
  case offence =>
    intro error hoffence
    have hscan := bracketError?_eq_some_iff.mpr hoffence
    refine ⟨by rw [ofInfix_eq_tokens, hscan], ?_⟩
    cases hcalls : treeBuilder.attemptAll [] (Pending.start.calls tokens) with
    | error refusal =>
        exact ⟨refusal, ofInfix_of_refused hcalls, Or.inr (isRefusal_of_attemptAll hcalls)⟩
    | ok subtrees =>
        have htree : Expr.ofInfix tokens = .error error := by
          rw [ofInfix_eq_attemptAll, hcalls, ok_bind, hscan]
        exact ⟨error, htree, Or.inl rfl⟩
  case kinds =>
    rintro error ⟨before, rest, _, hoffence, _⟩
    exact offence?_eq_some hoffence
  case inOrder =>
    intro hnone
    have hscan := bracketError?_eq_none hnone
    have hrpn : Rpn.ofInfix tokens = .ok (LineReport.spelling tokens) :=
      LineReport.rpn_eq_ok.mpr ⟨hscan, rfl⟩
    refine ⟨⟨_, hrpn⟩, ?_⟩
    cases htree : Expr.ofInfix tokens with
    | ok tree =>
        exact Or.inl ⟨tree, rfl⟩
    | error found =>
        refine Or.inr ⟨found, rfl, ?_⟩
        rcases ofInfix_eq_error hscan htree with hrefused | ⟨_, hempty⟩
        · exact Or.inr (isRefusal_of_attemptAll hrefused)
        · exact Or.inl hempty
  case nothing =>
    intro hnone
    have hscan := bracketError?_eq_none hnone
    rw [LineReport.ofInfix_eq_emptyExpression hscan, LineReport.spelling_eq_nil hscan,
      List.length_eq_zero_iff, List.length_eq_zero_iff]

end Parse
end InfixCalc
