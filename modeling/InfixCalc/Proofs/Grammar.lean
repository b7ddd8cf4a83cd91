import InfixCalc.Proofs.Forest

/-!
# Well-formed expressions

The grammar of infix expressions has sums of products of powers of atoms, every
operator associates to the left, and an atom is an operand or a sum in
parentheses.  The pass builds exactly the tree of a derivation.

While a phrase of the grammar is read, some of its operators are reduced and the
others are left waiting above those that waited before; the invariant
`Reads` says that the calls made and the operators left waiting together spell
the phrase, and that none of these operators binds looser than the phrase does.

* `Derivation.reads` : the invariant for every derivation.
* `ofInfix_tokens` : the two results of parsing a derivation's tokens.
-/

namespace InfixCalc
namespace Parse

/-- The categories of the grammar, the loosest first. -/
inductive Category where
  | sum
  | product
  | power
  | atom
  deriving DecidableEq, Repr

namespace Category

/-- How tightly a phrase binds: as its operators do, and an atom tighter than
every operator. -/
def rank : Category → Nat
  | sum => 1
  | product => 2
  | power => 3
  | atom => 4

end Category

/-- The derivations of the grammar. -/
inductive Derivation : Category → Type where
  | sum (left : Derivation .sum) (op : Operator) (hop : op = .plus ∨ op = .minus)
      (right : Derivation .product) : Derivation .sum
  | ofProduct (phrase : Derivation .product) : Derivation .sum
  | product (left : Derivation .product) (op : Operator)
      (hop : op = .times ∨ op = .divide ∨ op = .modulo)
      (right : Derivation .power) : Derivation .product
  | ofPower (phrase : Derivation .power) : Derivation .product
  | power (left : Derivation .power) (right : Derivation .atom) : Derivation .power
  | ofAtom (phrase : Derivation .atom) : Derivation .power
  | number (value : Value) : Derivation .atom
  | group (inner : Derivation .sum) : Derivation .atom

namespace Derivation

/-- The tokens that are derived. -/
def tokens : {category : Category} → Derivation category → List Token
  | _, sum left op _ right => left.tokens ++ .operator op :: right.tokens
  | _, ofProduct phrase => phrase.tokens
  | _, product left op _ right => left.tokens ++ .operator op :: right.tokens
  | _, ofPower phrase => phrase.tokens
  | _, power left right => left.tokens ++ .operator .power :: right.tokens
  | _, ofAtom phrase => phrase.tokens
  | _, number value => [.number value]
  | _, group inner => .opening :: inner.tokens ++ [.closing]

/-- The tree of a derivation, without its parentheses. -/
def tree : {category : Category} → Derivation category → Expr
  | _, sum left op _ right => .binary op left.tree right.tree
  | _, ofProduct phrase => phrase.tree
  | _, product left op _ right => .binary op left.tree right.tree
  | _, ofPower phrase => phrase.tree
  | _, power left right => .binary .power left.tree right.tree
  | _, ofAtom phrase => phrase.tree
  | _, number value => .number value
  | _, group inner => inner.tree

/-- How deep the parentheses of a derivation are nested. -/
def nesting : {category : Category} → Derivation category → Nat
  | _, sum left _ _ right => max left.nesting right.nesting
  | _, ofProduct phrase => phrase.nesting
  | _, product left _ _ right => max left.nesting right.nesting
  | _, ofPower phrase => phrase.nesting
  | _, power left right => max left.nesting right.nesting
  | _, ofAtom phrase => phrase.nesting
  | _, number _ => 0
  | _, group inner => inner.nesting + 1

end Derivation

/-- Reading `tokens` above the waiting operators `inner` makes calls and leaves
operators waiting that together spell `rpn`; those operators have at least the
given rank. -/
def Reads (rank : Nat) (inner : List Operator) (outer : List (List Operator))
    (tokens : List Token) (rpn : Rpn) : Prop :=
  ∃ made left,
    (∀ rest,
      Pending.calls ⟨inner, outer⟩ (tokens ++ rest) =
        made ++ Pending.calls ⟨left ++ inner, outer⟩ rest) ∧
    (∀ op ∈ left, rank ≤ op.rank) ∧
    Call.tokens made ++ left.map .operator = rpn

namespace Reads

variable {rank : Nat} {inner : List Operator} {outer : List (List Operator)}
variable {tokens : List Token} {rpn : Rpn}

theorem mono
    {looser : Nat} (hrank : looser ≤ rank)
    (hreads : Reads rank inner outer tokens rpn) :
    Reads looser inner outer tokens rpn := by
  obtain ⟨made, left, hcalls, hleft, hrpn⟩ := hreads
  exact ⟨made, left, hcalls, fun op hop => Nat.le_trans hrank (hleft op hop), hrpn⟩

theorem number
    (value : Value) :
    Reads rank inner outer [.number value] [.number value] := by
  exact ⟨[.operand value], [], fun rest => by simp, by simp, rfl⟩

/-- The operators of a group are reduced when it is closed. -/
theorem group
    (hdepth : outer.length ≠ maxNesting)
    (hreads : Reads 1 [] (inner :: outer) tokens rpn) :
    Reads rank inner outer (.opening :: tokens ++ [.closing]) rpn := by
  obtain ⟨made, left, hcalls, _, hrpn⟩ := hreads
  refine ⟨made ++ Pending.reductions left, [], ?_, by simp, ?_⟩
  · intro rest
    have hinside := hcalls (.closing :: rest)
    simp [Pending.calls_opening, hdepth, hinside]
  · simpa using hrpn

/-- An operator reduces what its left operand left waiting, and nothing that
waited before, because that binds looser. -/
theorem operation
    {op : Operator} {tokensRight : List Token} {rpnRight : Rpn}
    (hrank : op.rank = rank)
    (hinner : ∀ earlier ∈ inner, earlier.rank < rank)
    (hleft : Reads rank inner outer tokens rpn)
    (hright : Reads (rank + 1) (op :: inner) outer tokensRight rpnRight) :
    Reads rank inner outer (tokens ++ .operator op :: tokensRight)
      (rpn ++ rpnRight ++ [.operator op]) := by
  subst hrank
  obtain ⟨madeLeft, waitingLeft, hcallsLeft, hrankLeft, hrpnLeft⟩ := hleft
  obtain ⟨madeRight, waitingRight, hcallsRight, hrankRight, hrpnRight⟩ := hright
  refine ⟨madeLeft ++ Pending.reductions waitingLeft ++ madeRight, waitingRight ++ [op],
    ?_, ?_, ?_⟩
  · intro rest
    have hfirst := hcallsLeft (.operator op :: (tokensRight ++ rest))
    rw [Pending.calls_operator, Pending.giving_append hrankLeft hinner,
      Pending.staying_append hrankLeft hinner, hcallsRight rest] at hfirst
    simpa using hfirst
  · intro earlier hearlier
    rcases List.mem_append.mp hearlier with hwaiting | hlast
    · exact Nat.le_of_succ_le (hrankRight earlier hwaiting)
    · exact Nat.le_of_eq (congrArg Operator.rank (List.mem_singleton.mp hlast).symm)
  · rw [← hrpnLeft, ← hrpnRight]
    simp

end Reads

namespace Derivation

theorem lower_cons
    {rank : Nat} {op : Operator} {inner : List Operator}
    (hrank : op.rank = rank)
    (hinner : ∀ earlier ∈ inner, earlier.rank < rank) :
    ∀ earlier ∈ op :: inner, earlier.rank < rank + 1 := by
  intro earlier hearlier
  rcases List.mem_cons.mp hearlier with rfl | hbelow
  · omega
  · exact Nat.lt_succ_of_lt (hinner earlier hbelow)

/-- The pass reads every derivation at any place where it may stand: above
operators that bind looser, and where its parentheses fit. -/
theorem reads
    {category : Category} (derivation : Derivation category)
    {inner : List Operator} {outer : List (List Operator)}
    (hinner : ∀ earlier ∈ inner, earlier.rank < category.rank)
    (hnesting : outer.length + derivation.nesting ≤ maxNesting) :
    Reads category.rank inner outer derivation.tokens derivation.tree.toRpn := by
  induction derivation generalizing inner outer with
  | sum left op hop right ihLeft ihRight =>
      have hrank : op.rank = 1 := by
        rcases hop with rfl | rfl <;> rfl
      rw [nesting] at hnesting
      have hleft := @ihLeft inner outer hinner (by omega)
      have hright := @ihRight (op :: inner) outer (lower_cons hrank hinner) (by omega)
      exact .operation hrank hinner hleft hright
  | product left op hop right ihLeft ihRight =>
      have hrank : op.rank = 2 := by
        rcases hop with rfl | rfl | rfl <;> rfl
      rw [nesting] at hnesting
      have hleft := @ihLeft inner outer hinner (by omega)
      have hright := @ihRight (op :: inner) outer (lower_cons hrank hinner) (by omega)
      exact .operation hrank hinner hleft hright
  | power left right ihLeft ihRight =>
      rw [nesting] at hnesting
      have hleft := @ihLeft inner outer hinner (by omega)
      have hright := @ihRight (.power :: inner) outer (lower_cons rfl hinner) (by omega)
      exact .operation rfl hinner hleft hright
  | ofProduct phrase ih =>
      exact (ih (fun earlier hmem => Nat.lt_succ_of_lt (hinner earlier hmem)) hnesting).mono
        (by decide)
  | ofPower phrase ih =>
      exact (ih (fun earlier hmem => Nat.lt_succ_of_lt (hinner earlier hmem)) hnesting).mono
        (by decide)
  | ofAtom phrase ih =>
      exact (ih (fun earlier hmem => Nat.lt_succ_of_lt (hinner earlier hmem)) hnesting).mono
        (by decide)
  | number value =>
      exact .number value
  | group phrase ih =>
      rw [nesting] at hnesting
      have hinside := @ih [] (inner :: outer) (by simp) (by simp; omega)
      exact .group (by omega) hinside

/-- The scan finds nothing to object to in a derivation whose parentheses
fit. -/
theorem bracketError?_tokens
    {category : Category} (derivation : Derivation category)
    {depth : Nat} (rest : List Token)
    (hnesting : depth + derivation.nesting ≤ maxNesting) :
    bracketError? depth (derivation.tokens ++ rest) = bracketError? depth rest := by
  induction derivation generalizing depth rest with
  | sum left op _ right ihLeft ihRight =>
      rw [nesting] at hnesting
      have hnestingLeft : depth + left.nesting ≤ maxNesting := by
        omega
      rw [tokens, List.append_assoc, ihLeft _ hnestingLeft, List.cons_append, bracketError?,
        ihRight _ (by omega)]
  | product left op _ right ihLeft ihRight =>
      rw [nesting] at hnesting
      have hnestingLeft : depth + left.nesting ≤ maxNesting := by
        omega
      rw [tokens, List.append_assoc, ihLeft _ hnestingLeft, List.cons_append, bracketError?,
        ihRight _ (by omega)]
  | power left right ihLeft ihRight =>
      rw [nesting] at hnesting
      have hnestingLeft : depth + left.nesting ≤ maxNesting := by
        omega
      rw [tokens, List.append_assoc, ihLeft _ hnestingLeft, List.cons_append, bracketError?,
        ihRight _ (by omega)]
  | ofProduct phrase ih =>
      exact ih rest hnesting
  | ofPower phrase ih =>
      exact ih rest hnesting
  | ofAtom phrase ih =>
      exact ih rest hnesting
  | number value =>
      rw [tokens, List.cons_append, bracketError?, List.nil_append]
  | group phrase ih =>
      rw [nesting] at hnesting
      have hdepth : depth ≠ maxNesting := by
        omega
      rw [tokens, List.cons_append, List.cons_append, bracketError?, if_neg hdepth,
        List.append_assoc, ih _ (by omega)]
      rfl

/-- The pass over the tokens of a sum makes calls that spell its tree. -/
theorem tokens_calls
    (derivation : Derivation .sum)
    (hnesting : derivation.nesting ≤ maxNesting) :
    Call.tokens (Pending.start.calls derivation.tokens) = derivation.tree.toRpn := by
  obtain ⟨made, left, hcalls, _, hrpn⟩ :=
    @reads .sum derivation [] [] (by simp) (by simpa using hnesting)
  have hall := hcalls []
  rw [List.append_nil, Pending.calls_nil] at hall
  rw [Pending.start, hall]
  simpa using hrpn

theorem bracketError?_eq_none
    {category : Category} (derivation : Derivation category)
    (hnesting : derivation.nesting ≤ maxNesting) :
    bracketError? 0 derivation.tokens = none := by
  have hend := @bracketError?_tokens _ derivation 0 [] (by rwa [Nat.zero_add])
  rwa [List.append_nil] at hend

/-- The pass turns every derivation of a sum whose parentheses are nested at
most 18 deep into its tree in reverse Polish order, and into its tree unless
that has more than 2048 levels. -/
theorem ofInfix_tokens
    (derivation : Derivation .sum)
    (hnesting : derivation.nesting ≤ 18) :
    Rpn.ofInfix derivation.tokens = .ok derivation.tree.toRpn ∧
      Expr.ofInfix derivation.tokens =
        if derivation.tree.levels ≤ 2048 then
          .ok derivation.tree
        else
          .error (.treeTooDeep 2048) := by
  exact ofInfix_of_toRpn (bracketError?_eq_none derivation hnesting)
    (tokens_calls derivation hnesting)

/-- A derivation of `8 - 3 - 2 * ( 1 + 1 ) ^ 2`. -/
def mixed : Derivation .sum :=
  let one := Derivation.ofPower (.ofAtom (.number 1))
  let difference :=
    Derivation.sum (.ofProduct (.ofPower (.ofAtom (.number 8)))) .minus (.inr rfl)
      (.ofPower (.ofAtom (.number 3)))
  let group := Derivation.group (.sum (.ofProduct one) .plus (.inl rfl) one)
  .sum difference .minus (.inr rfl)
    (.product (.ofPower (.ofAtom (.number 2))) .times (.inl rfl)
      (.power (.ofAtom group) (.number 2)))

/-- Differences associate to the left, and powers bind tighter than products. -/
theorem ofInfix_tokens_mixed :
    Expr.ofInfix
        [.number 8, .operator .minus, .number 3, .operator .minus, .number 2, .operator .times,
          .opening, .number 1, .operator .plus, .number 1, .closing, .operator .power,
          .number 2] =
      .ok (.binary .minus (.binary .minus (.number 8) (.number 3))
        (.binary .times (.number 2)
          (.binary .power (.binary .plus (.number 1) (.number 1)) (.number 2)))) := by
  have hlevels : mixed.tree.levels ≤ 2048 := by
    decide
  exact (ofInfix_tokens mixed (by decide)).2.trans (if_pos hlevels)

end Derivation
end Parse
end InfixCalc
