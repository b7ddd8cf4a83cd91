import InfixCalc.Proofs.Forest
import InfixCalc.Proofs.Passage

/-!
# Groups

A group in parentheses takes the place of an operand.  The pass comes out of it
in the state in which it went in, and the closing parenthesis reduces the
operators that the group leaves waiting in the order in which the end of the
tokens would reduce them.  So the calls for the group spell the sequence that
the group has by itself, whatever stands around it.

* `passes_of_ofInfix` : a token list that has a sequence, read from the start.
* `exists_passes_group` : the same list as a group, read anywhere.
* `ofInfix_of_passes` : the sequence around a part that leaves the state as it
  was.
* `Rpn.ofInfix_group` : a group in any context.
-/

namespace InfixCalc
namespace Parse

/-- A token list that has a sequence is passed from the start.  The operators
that are left waiting come last in the sequence. -/
theorem passes_of_ofInfix
    {tokens : List Token} {rpn : Rpn}
    (hrpn : Rpn.ofInfix tokens = .ok rpn) :
    ∃ made left,
      Pending.Passes .start tokens made ⟨left, []⟩ ∧
      Call.tokens made ++ left.map .operator = rpn := by
  obtain ⟨hscan, rfl⟩ := ofInfix_eq_ok.mp hrpn
  rcases Pending.passes_or_offends tokens .start with
    ⟨made, ⟨left, outer⟩, hpasses⟩ | ⟨error, hoffends⟩
  · have hend := hpasses.bracketError?_append []
    have hcalls := hpasses.calls_append []
    rw [List.append_nil] at hend hcalls
    cases outer with
    | nil =>
        refine ⟨made, left, hpasses, ?_⟩
        rw [hcalls]
        simp
    | cons level outer =>
        cases hscan.symm.trans hend
  · have hend := hoffends []
    rw [List.append_nil] at hend
    cases hscan.symm.trans hend

/-- Where its parentheses fit, a token list that has a sequence is passed as a
group, with calls that spell its sequence. -/
theorem exists_passes_group
    {pending : Pending} {group : List Token} {inside : Rpn} {limit : Int}
    (hgroup : Rpn.ofInfix group = .ok inside)
    (hnests : Token.NestsWithin limit (.opening :: group))
    (hroom : pending.depth + limit ≤ maxNesting) :
    ∃ made,
      Pending.Passes pending (.opening :: group ++ [.closing]) made pending ∧
      Call.tokens made = inside := by
  obtain ⟨inner, outer⟩ := pending
  obtain ⟨made, left, hpasses, hspelled⟩ := passes_of_ofInfix hgroup
  have hinside := hnests.tail
  have hopened := hinside.nonneg
  simp only [Token.balance_cons_opening, Token.balance_nil] at hinside hopened
  simp only [Pending.depth] at hroom
  have hdeeper := hpasses.deeper (inner :: outer) hinside (by
    simp only [Pending.start, Pending.depth, List.length_cons, List.length_nil]
    omega)
  refine ⟨made ++ Pending.reductions left, .group (by omega) hdeeper, ?_⟩
  simpa using hspelled

/-- A part that leaves the state as it was adds its calls to those made before
and after it. -/
theorem ofInfix_of_passes
    {front part : List Token} {pending : Pending} {made inside : List Call}
    (hfront : Pending.Passes .start front made pending)
    (hpart : Pending.Passes pending part inside pending)
    (back : List Token) :
    Rpn.ofInfix (front ++ part ++ back) =
      match bracketError? pending.depth back with
      | some error => .error error
      | none =>
          .ok (Call.tokens made ++ Call.tokens inside ++ Call.tokens (pending.calls back)) := by
  have hboth := hfront.append hpart
  have hscan : bracketError? 0 (front ++ part ++ back) = bracketError? pending.depth back :=
    hboth.bracketError?_append back
  cases hback : bracketError? pending.depth back with
  | some error =>
      rw [ofInfix_eq_tokens, hscan, hback]
  | none =>
      refine ofInfix_eq_ok.mpr ⟨hscan.trans hback, ?_⟩
      have hcalls : Pending.start.calls (front ++ part ++ back) = _ := hboth.calls_append back
      rw [hcalls, Call.tokens_append, Call.tokens_append]

section Contexts

variable {front : List Token} {pending : Pending} {made : List Call}

theorem ofInfix_append_number
    (hfront : Pending.Passes .start front made pending)
    (value : Value) (back : List Token) :
    Rpn.ofInfix (front ++ .number value :: back) =
      match bracketError? pending.depth back with
      | some error => .error error
      | none =>
          .ok (Call.tokens made ++ .number value :: Call.tokens (pending.calls back)) := by
  have hoperand := ofInfix_of_passes hfront (.number value (.nil pending)) back
  simpa using hoperand

theorem ofInfix_append_group
    {group : List Token} {inside : Rpn}
    (hfront : Pending.Passes .start front made pending)
    (hgroup : Rpn.ofInfix group = .ok inside)
    {back : List Token}
    (hnests : Token.NestsWithin 18 (front ++ .opening :: group ++ .closing :: back)) :
    Rpn.ofInfix (front ++ .opening :: group ++ .closing :: back) =
      match bracketError? pending.depth back with
      | some error => .error error
      | none => .ok (Call.tokens made ++ inside ++ Call.tokens (pending.calls back)) := by
  have hopened := hnests.of_append.1.of_append.2
  have hdepth : (pending.depth : Int) = (0 : Nat) + Token.balance front := hfront.depth_eq
  have hroom : pending.depth + (18 - Token.balance front) ≤ (maxNesting : Int) := by
    rw [maxNesting]
    omega
  obtain ⟨calls, hpart, rfl⟩ := exists_passes_group hgroup hopened hroom
  have hwhole := ofInfix_of_passes hfront hpart back
  simpa using hwhole

/-- Where the scan objects to the tokens in front, what follows does not
matter. -/
theorem ofInfix_of_offends
    {error : ParseError}
    (hoffends : ∀ rest, bracketError? Pending.start.depth (front ++ rest) = some error)
    (rest : List Token) :
    Rpn.ofInfix (front ++ rest) = .error error := by
  have hscan : bracketError? 0 (front ++ rest) = some error := hoffends rest
  rw [ofInfix_eq_tokens, hscan]

end Contexts

/-- Parentheses around a whole token list change nothing. -/
theorem ofInfix_enclosed
    {tokens : List Token} {rpn : Rpn}
    (hrpn : Rpn.ofInfix tokens = .ok rpn)
    (hnests : Token.NestsWithin 18 (.opening :: tokens ++ [.closing])) :
    Rpn.ofInfix (.opening :: tokens ++ [.closing]) = .ok rpn := by
  have halone := ofInfix_append_group (.nil .start) hrpn hnests
  simpa [Pending.start, Pending.depth, bracketError?, Pending.trailingReductions] using halone

end Parse

namespace Rpn

open Parse

/-- A group stands for an operand.  In any context, well-formed or not, in which
its parentheses fit, the group fails as an operand in its place fails, and
otherwise its own sequence stands where that of the operand stands.  Without a
context the parentheses change nothing. -/
theorem ofInfix_group
    (front group back : List Token) (value : Value) (inside : Rpn)
    (hgroup : Rpn.ofInfix group = .ok inside)
    (hnests : Token.NestsWithin 18 (front ++ .opening :: group ++ .closing :: back)) :
    (∀ error,
      Rpn.ofInfix (front ++ .number value :: back) = .error error →
      Rpn.ofInfix (front ++ .opening :: group ++ .closing :: back) = .error error) ∧
    (∀ rpn,
      Rpn.ofInfix (front ++ .number value :: back) = .ok rpn →
      ∃ before after,
        rpn = before ++ .number value :: after ∧
        (Token.values before).length = (Token.values front).length ∧
        Rpn.ofInfix (front ++ .opening :: group ++ .closing :: back) =
          .ok (before ++ inside ++ after)) ∧
    (Token.NestsWithin 18 (.opening :: group ++ [.closing]) →
      Rpn.ofInfix (.opening :: group ++ [.closing]) = .ok inside) := by
  refine ⟨?_, ?_, fun halone => ofInfix_enclosed hgroup halone⟩
  · intro error herror
    rcases Pending.passes_or_offends front .start with
      ⟨made, pending, hfront⟩ | ⟨failure, hoffends⟩
    · rw [ofInfix_append_number hfront] at herror
      rw [ofInfix_append_group hfront hgroup hnests]
      split at herror
      · exact herror
      · cases herror
    · rw [ofInfix_of_offends hoffends] at herror
      rw [List.append_assoc, ofInfix_of_offends hoffends]
      exact herror
  · intro rpn hrpn
    rcases Pending.passes_or_offends front .start with
      ⟨made, pending, hfront⟩ | ⟨failure, hoffends⟩
    · rw [ofInfix_append_number hfront] at hrpn
      rw [ofInfix_append_group hfront hgroup hnests]
      split at hrpn
      · cases hrpn
      · cases hrpn
        refine ⟨Call.tokens made, Call.tokens (pending.calls back), rfl, ?_, rfl⟩
        rw [hfront.values_eq]
    · rw [ofInfix_of_offends hoffends] at hrpn
      cases hrpn

/-- In `( 1 * 7 ^ ) 3` the group `( 2 + )` may stand for the operand 7, although
neither of them is well-formed. -/
theorem ofInfix_group_malformed :
    ∃ before after,
      [.number 1, .number 7, .operator .power, .operator .times, .number 3] =
        before ++ .number 7 :: after ∧
      (Token.values before).length = 1 ∧
      Rpn.ofInfix
          [.opening, .number 1, .operator .times, .opening, .number 2, .operator .plus, .closing,
            .operator .power, .closing, .number 3] =
        .ok (before ++ [.number 2, .operator .plus] ++ after) := by
  have hoperand :
      Rpn.ofInfix
          [.opening, .number 1, .operator .times, .number 7, .operator .power, .closing,
            .number 3] =
        .ok [.number 1, .number 7, .operator .power, .operator .times, .number 3] := by
    rfl
  obtain ⟨_, hreplaced, _⟩ := ofInfix_group [.opening, .number 1, .operator .times]
    [.number 2, .operator .plus] [.operator .power, .closing, .number 3] 7
    [.number 2, .operator .plus] rfl (by decide)
  exact hreplaced _ hoperand

end Rpn
end InfixCalc
