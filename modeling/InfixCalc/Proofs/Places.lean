import InfixCalc.Proofs.Ranks
import InfixCalc.Proofs.Passage
import Mathlib.Data.List.Nodup

/-!
# The places that calls are made for

Calls name an operator but not the token that it comes from.  Here the operators wait
with their places among the tokens, and every call is made for a place.  Without the
places it is the pass as it was: each call is for the token at its place, and no place
gets two calls.

So it can be said of a single operator when it is reduced.  While it waits, reading
further tokens can only open and close levels above its own, or reduce it.

* `Waiters.dues` : the calls of the pass with their places.
* `Waiters.map_call_dues`, `call_of_mem_dues`, `nodup_dues` : the places are right.
* `Waiters.Holds` : an operator waits at a level; `Holds.reads` : it goes on waiting
  there until it is reduced.
-/

namespace InfixCalc
namespace Parse

/-- An operator that waits, with its place among the tokens. -/
structure Waiter where
  place : Nat
  op : Operator
  deriving DecidableEq, Repr

/-- A call, with the place of the token that it is made for. -/
structure Due where
  place : Nat
  call : Call
  deriving DecidableEq, Repr

namespace Waiter

/-- The reduction of a waiting operator while tokens are being read. -/
def reduction (waiter : Waiter) : Due :=
  ⟨waiter.place, .reduce waiter.op⟩

/-- The reduction of a waiting operator after the last token. -/
def trailingReduction (waiter : Waiter) : Due :=
  ⟨waiter.place, .reduceTrailing waiter.op⟩

/-- The waiting operators that `op` reduces. -/
def giving (op : Operator) (waiting : List Waiter) : List Waiter :=
  waiting.takeWhile fun earlier => op.rank ≤ earlier.op.rank

/-- The waiting operators that `op` leaves. -/
def staying (op : Operator) (waiting : List Waiter) : List Waiter :=
  waiting.dropWhile fun earlier => op.rank ≤ earlier.op.rank

theorem giving_append_staying
    (op : Operator) (waiting : List Waiter) :
    giving op waiting ++ staying op waiting = waiting := by
  exact List.takeWhile_append_dropWhile

@[simp] theorem map_op_giving
    (op : Operator) (waiting : List Waiter) :
    (giving op waiting).map Waiter.op = Pending.giving op (waiting.map Waiter.op) := by
  rw [giving, Pending.giving, List.takeWhile_map]
  rfl

@[simp] theorem map_op_staying
    (op : Operator) (waiting : List Waiter) :
    (staying op waiting).map Waiter.op = Pending.staying op (waiting.map Waiter.op) := by
  rw [staying, Pending.staying, List.dropWhile_map]
  rfl

/-- An operator reduces one that binds at least as tightly, if all those on top of that
one do so too. -/
theorem mem_giving
    {op : Operator} {waiter : Waiter} {tighter : List Waiter}
    (htighter : ∀ earlier ∈ tighter, waiter.op.rank < earlier.op.rank)
    (hrank : op.rank ≤ waiter.op.rank) (looser : List Waiter) :
    waiter ∈ giving op (tighter ++ waiter :: looser) := by
  have hgives : ∀ earlier ∈ tighter, decide (op.rank ≤ earlier.op.rank) = true := by
    intro earlier hearlier
    exact decide_eq_true (Nat.le_trans hrank (Nat.le_of_lt (htighter earlier hearlier)))
  rw [giving, List.takeWhile_append_of_pos hgives]
  simp [hrank]

/-- An operator leaves one that binds looser, and all those below it. -/
theorem staying_append
    {op : Operator} {waiter : Waiter}
    (hrank : waiter.op.rank < op.rank) (tighter looser : List Waiter) :
    staying op (tighter ++ waiter :: looser) = staying op tighter ++ waiter :: looser := by
  induction tighter with
  | nil =>
      simp [staying, hrank]
  | cons top tighter ih =>
      by_cases htop : op.rank ≤ top.op.rank
      · simpa [staying, htop] using ih
      · simp [staying, htop]

@[simp] theorem call_comp_reduction :
    Due.call ∘ reduction = Call.reduce ∘ Waiter.op := by
  rfl

@[simp] theorem call_comp_trailingReduction :
    Due.call ∘ trailingReduction = Call.reduceTrailing ∘ Waiter.op := by
  rfl

@[simp] theorem place_comp_reduction :
    Due.place ∘ reduction = Waiter.place := by
  rfl

@[simp] theorem place_comp_trailingReduction :
    Due.place ∘ trailingReduction = Waiter.place := by
  rfl

end Waiter

/-- The operators that wait, at every level the last one first, and the levels from the
inside out. -/
structure Waiters where
  inner : List Waiter
  outer : List (List Waiter)

namespace Waiters

/-- Nothing waits before the first token. -/
def start : Waiters :=
  ⟨[], []⟩

/-- The state without the places. -/
def forget (waiters : Waiters) : Pending :=
  ⟨waiters.inner.map Waiter.op, waiters.outer.map (List.map Waiter.op)⟩

/-- All operators that wait, at any level. -/
def all (waiters : Waiters) : List Waiter :=
  waiters.inner ++ waiters.outer.flatten

/-- What comes of reading the token at `place`: the calls that are made, and the
operators that wait then, unless the token offends. -/
def read (place : Nat) (waiters : Waiters) (token : Token) : List Due × Option Waiters :=
  match token with
  | .number value => ([⟨place, .operand value⟩], some waiters)
  | .opening =>
      ([], if waiters.outer.length = maxNesting then
        none
      else
        some ⟨[], waiters.inner :: waiters.outer⟩)
  | .closing =>
      (waiters.inner.map Waiter.reduction,
        match waiters.outer with
        | [] => none
        | level :: outer => some ⟨level, outer⟩)
  | .operator op =>
      ((Waiter.giving op waiters.inner).map Waiter.reduction,
        some ⟨⟨place, op⟩ :: Waiter.staying op waiters.inner, waiters.outer⟩)
  | .bottom => ([], none)

/-- The calls of the pass on the tokens that are left, the first of them at `place`. -/
def dues : Nat → Waiters → List Token → List Due
  | _, waiters, [] => waiters.inner.map Waiter.trailingReduction
  | place, waiters, token :: rest =>
    (waiters.read place token).1 ++
      match (waiters.read place token).2 with
      | none => []
      | some after => dues (place + 1) after rest

/-- The pass gets through `tokens`, the first of them at a place, with the calls `made`,
and comes from the first state to the second. -/
inductive Reads : Nat → Waiters → List Token → List Due → Waiters → Prop
  | nil (place : Nat) (waiters : Waiters) :
      Reads place waiters [] [] waiters
  | cons {place : Nat} {waiters between after : Waiters} {token : Token}
      {rest : List Token} {made : List Due} :
      (waiters.read place token).2 = some between →
      Reads (place + 1) between rest made after →
      Reads place waiters (token :: rest) ((waiters.read place token).1 ++ made) after

/-- Without their places the calls are those of the pass. -/
theorem map_call_dues
    (place : Nat) (waiters : Waiters) (tokens : List Token) :
    (waiters.dues place tokens).map Due.call = waiters.forget.calls tokens := by
  induction tokens generalizing place waiters with
  | nil =>
      simp [dues, forget, Pending.trailingReductions]
  | cons token rest ih =>
      obtain ⟨inner, outer⟩ := waiters
      cases token with
      | number value =>
          simp [dues, read, ih]
      | opening =>
          rw [forget, Pending.calls_opening, List.length_map]
          by_cases hdepth : outer.length = maxNesting
          · simp [dues, read, hdepth]
          · simp [dues, read, hdepth, ih, forget]
      | closing =>
          cases outer with
          | nil =>
              simp [dues, read, forget, Pending.reductions]
          | cons level outer =>
              simp [dues, read, ih, forget, Pending.reductions]
      | operator op =>
          have hgiving : (Waiter.giving op inner).map (Call.reduce ∘ Waiter.op) =
              Pending.reductions (Pending.giving op (inner.map Waiter.op)) := by
            rw [Pending.reductions, ← Waiter.map_op_giving, List.map_map]
          simp [dues, read, ih, forget, hgiving]
      | bottom =>
          simp [dues, read]

/-- Reading a token makes calls for operators that waited, or for the token; and what
waits then waited, or is the token. -/
theorem sources_of_read
    (place : Nat) (waiters : Waiters) (token : Token) :
    (∀ due ∈ (waiters.read place token).1,
      (∃ waiter ∈ waiters.all, due = waiter.reduction) ∨
        due.place = place ∧ due.call.token = token) ∧
    (∀ after, (waiters.read place token).2 = some after →
      ∀ waiter ∈ after.all,
        waiter ∈ waiters.all ∨ waiter.place = place ∧ token = .operator waiter.op) := by
  obtain ⟨inner, outer⟩ := waiters
  cases token with
  | number value =>
      constructor
      · intro due hdue
        rw [List.mem_singleton.mp hdue]
        exact Or.inr ⟨rfl, rfl⟩
      · rintro after ⟨⟩ waiter hwaiter
        exact Or.inl hwaiter
  | opening =>
      constructor
      · intro due hdue
        cases hdue
      · intro after hafter waiter hwaiter
        by_cases hdepth : outer.length = maxNesting
        · simp [read, hdepth] at hafter
        · simp [read, hdepth] at hafter
          subst hafter
          simpa [all] using hwaiter
  | closing =>
      constructor
      · intro due hdue
        obtain ⟨waiter, hwaiter, rfl⟩ := List.mem_map.mp hdue
        exact Or.inl ⟨waiter, List.mem_append_left _ hwaiter, rfl⟩
      · intro after hafter waiter hwaiter
        cases outer with
        | nil =>
            cases hafter
        | cons level outer =>
            cases hafter
            exact Or.inl (List.mem_append_right _ hwaiter)
  | operator op =>
      constructor
      · intro due hdue
        obtain ⟨waiter, hwaiter, rfl⟩ := List.mem_map.mp hdue
        have hinner := (List.takeWhile_sublist _).subset hwaiter
        exact Or.inl ⟨waiter, List.mem_append_left _ hinner, rfl⟩
      · rintro after ⟨⟩ waiter hwaiter
        rcases List.mem_cons.mp hwaiter with rfl | hearlier
        · exact Or.inr ⟨rfl, rfl⟩
        · refine Or.inl ?_
          rcases List.mem_append.mp hearlier with hstays | houter
          · exact List.mem_append_left _ ((List.dropWhile_sublist _).subset hstays)
          · exact List.mem_append_right _ houter
  | bottom =>
      constructor
      · intro due hdue
        cases hdue
      · intro after hafter
        cases hafter

/-- Every call is for an operator that waits, or for one of the tokens. -/
theorem call_of_mem_dues
    {place : Nat} {waiters : Waiters} {tokens : List Token} {due : Due}
    (hdue : due ∈ waiters.dues place tokens) :
    (∃ waiter ∈ waiters.all,
      due.place = waiter.place ∧ due.call.token = .operator waiter.op) ∨
    ∃ index, due.place = place + index ∧ tokens[index]? = some due.call.token := by
  induction tokens generalizing place waiters with
  | nil =>
      obtain ⟨waiter, hwaiter, rfl⟩ := List.mem_map.mp hdue
      exact Or.inl ⟨waiter, List.mem_append_left _ hwaiter, rfl, rfl⟩
  | cons token rest ih =>
      obtain ⟨hmade, hafter⟩ := sources_of_read place waiters token
      rw [dues] at hdue
      rcases List.mem_append.mp hdue with hnow | hlater
      · rcases hmade due hnow with ⟨waiter, hwaiter, rfl⟩ | ⟨hplace, htoken⟩
        · exact Or.inl ⟨waiter, hwaiter, rfl, rfl⟩
        · exact Or.inr ⟨0, hplace, by simp [htoken]⟩
      · cases hread : (waiters.read place token).2 with
        | none =>
            rw [hread] at hlater
            cases hlater
        | some after =>
            rw [hread] at hlater
            rcases ih hlater with ⟨waiter, hwaiter, hplace, hcall⟩ | ⟨index, hplace, hcall⟩
            · rcases hafter after hread waiter hwaiter with hwaited | ⟨hnow, rfl⟩
              · exact Or.inl ⟨waiter, hwaited, hplace, hcall⟩
              · exact Or.inr ⟨0, hplace.trans hnow, by simp [hcall]⟩
            · exact Or.inr ⟨index + 1, by omega, by simpa using hcall⟩

/-- The places of all operators that wait. -/
def places (waiters : Waiters) : List Nat :=
  waiters.all.map Waiter.place

/-- Reading a token, a place is only handed on, or it is that of the token. -/
theorem count_read
    (place : Nat) (waiters : Waiters) (token : Token) (found : Nat) :
    ((waiters.read place token).1.map Due.place).count found +
        (((waiters.read place token).2.map places).getD []).count found ≤
      waiters.places.count found + if place = found then 1 else 0 := by
  obtain ⟨inner, outer⟩ := waiters
  cases token with
  | number value =>
      simp [read, List.count_singleton, Nat.add_comm]
  | opening =>
      by_cases hdepth : outer.length = maxNesting
      · simp [read, hdepth]
      · simp [read, hdepth, places, all]
  | closing =>
      cases outer with
      | nil =>
          simp [read, places, all]
      | cons level outer =>
          simp [read, places, all]
  | operator op =>
      have hlevel := congrArg (fun waiting => (waiting.map Waiter.place).count found)
        (Waiter.giving_append_staying op inner)
      simp only [List.map_append, List.count_append] at hlevel
      simp [read, places, all, List.count_cons]
      omega
  | bottom =>
      simp [read]

/-- A place gets no more calls than operators that wait have it, and one more if its
token is still to be read. -/
theorem count_dues
    (place : Nat) (waiters : Waiters) (tokens : List Token) (found : Nat) :
    ((waiters.dues place tokens).map Due.place).count found ≤
      waiters.places.count found + if place ≤ found then 1 else 0 := by
  induction tokens generalizing place waiters with
  | nil =>
      simp [dues, places, all]
      omega
  | cons token rest ih =>
      have hread := count_read place waiters token found
      rw [dues, List.map_append, List.count_append]
      cases hafter : (waiters.read place token).2 with
      | none =>
          simp [hafter] at hread ⊢
          split at hread <;> split <;> omega
      | some after =>
          have hrest := ih (place + 1) after
          simp [hafter] at hread ⊢
          split at hread <;> split at hrest <;> split <;> omega

/-- No place gets two calls. -/
theorem nodup_dues
    (tokens : List Token) :
    ((start.dues 0 tokens).map Due.place).Nodup := by
  rw [List.nodup_iff_count_le_one]
  intro found
  simpa [start, places, all] using count_dues 0 start tokens found

namespace Reads

variable {place : Nat} {waiters between after : Waiters} {tokens second : List Token}
variable {made later : List Due}

/-- The calls of the pass are those made for the part, and then those on the rest. -/
theorem dues_append
    (hreads : Reads place waiters tokens made after) (rest : List Token) :
    waiters.dues place (tokens ++ rest) = made ++ after.dues (place + tokens.length) rest := by
  induction hreads with
  | nil place waiters =>
      rfl
  | @cons place waiters _ _ token _ _ hbetween _ ih =>
      rw [List.cons_append, dues, hbetween, List.append_assoc, List.length_cons]
      simp only [ih, Nat.add_assoc, Nat.add_comm 1]

/-- A part can be read in two parts. -/
theorem split
    (hreads : Reads place waiters (tokens ++ second) made after) :
    ∃ first between later,
      Reads place waiters tokens first between ∧
      Reads (place + tokens.length) between second later after ∧
      made = first ++ later := by
  induction tokens generalizing place waiters made with
  | nil =>
      exact ⟨[], waiters, made, .nil place waiters, hreads, rfl⟩
  | cons token rest ih =>
      cases hreads with
      | cons hbetween hrest =>
          obtain ⟨first, between, later, hfirst, hsecond, rfl⟩ := ih hrest
          refine ⟨_, between, later, .cons hbetween hfirst, ?_, (List.append_assoc _ _ _).symm⟩
          rw [List.length_cons, Nat.add_comm rest.length, ← Nat.add_assoc]
          exact hsecond

end Reads

/-- If an operator is reduced after the last token, all tokens have been read, and it
waited at the innermost level. -/
theorem reads_of_trailing
    {place found : Nat} {waiters : Waiters} {tokens : List Token} {op : Operator}
    (hdue : ⟨found, .reduceTrailing op⟩ ∈ waiters.dues place tokens) :
    ∃ made after,
      Reads place waiters tokens made after ∧ (⟨found, op⟩ : Waiter) ∈ after.inner := by
  induction tokens generalizing place waiters with
  | nil =>
      obtain ⟨waiter, hwaiter, hcall⟩ := List.mem_map.mp hdue
      cases hcall
      exact ⟨[], waiters, .nil place waiters, hwaiter⟩
  | cons token rest ih =>
      rw [dues] at hdue
      rcases List.mem_append.mp hdue with hnow | hlater
      · obtain ⟨hmade, _⟩ := sources_of_read place waiters token
        rcases hmade _ hnow with ⟨waiter, _, hcall⟩ | ⟨_, rfl⟩
        · cases hcall
        · simp [read, Waiter.reduction] at hnow
      · cases hread : (waiters.read place token).2 with
        | none =>
            rw [hread] at hlater
            cases hlater
        | some between =>
            rw [hread] at hlater
            obtain ⟨made, after, hreads, hwaits⟩ := ih hlater
            exact ⟨_, after, .cons hread hreads, hwaits⟩

/-- The operator waits `above` levels out from the innermost one, with only operators on
top of it that bind tighter. -/
def Holds (waiter : Waiter) (above : Nat) (waiters : Waiters) : Prop :=
  ∃ tighter looser,
    (waiters.inner :: waiters.outer)[above]? = some (tighter ++ waiter :: looser) ∧
    ∀ earlier ∈ tighter, waiter.op.rank < earlier.op.rank

namespace Holds

variable {waiter : Waiter} {above place : Nat} {waiters after : Waiters}

/-- An operator that has just been read waits at the innermost level. -/
theorem of_read
    {op : Operator}
    (hread : (waiters.read place (.operator op)).2 = some after) :
    Holds ⟨place, op⟩ 0 after := by
  cases hread
  exact ⟨[], Waiter.staying op waiters.inner, rfl, List.forall_mem_nil _⟩

/-- An operator at the innermost level is reduced when the level is closed. -/
theorem closed
    (hholds : Holds waiter 0 waiters) :
    waiter.reduction ∈ (waiters.read place .closing).1 := by
  obtain ⟨tighter, looser, hlevel, _⟩ := hholds
  have hinner : waiters.inner = tighter ++ waiter :: looser := Option.some.inj hlevel
  refine List.mem_map_of_mem ?_
  rw [hinner]
  exact List.mem_append_right _ List.mem_cons_self

/-- An operator at the innermost level is reduced by one that does not bind tighter. -/
theorem overtaken
    {op : Operator}
    (hholds : Holds waiter 0 waiters) (hrank : op.rank ≤ waiter.op.rank) :
    waiter.reduction ∈ (waiters.read place (.operator op)).1 := by
  obtain ⟨tighter, looser, hlevel, htighter⟩ := hholds
  have hinner : waiters.inner = tighter ++ waiter :: looser := Option.some.inj hlevel
  refine List.mem_map_of_mem ?_
  rw [hinner]
  exact Waiter.mem_giving htighter hrank looser

/-- A token reduces the operator, or leaves it at its level. -/
theorem read
    {token : Token}
    (hholds : Holds waiter above waiters)
    (hread : (waiters.read place token).2 = some after) :
    waiter.reduction ∈ (waiters.read place token).1 ∨
      ∃ left : Nat, (left : Int) = above + Token.balance [token] ∧ Holds waiter left after := by
  obtain ⟨inner, outer⟩ := waiters
  cases token with
  | number value =>
      cases hread
      exact Or.inr ⟨above, by simp, hholds⟩
  | opening =>
      by_cases hdepth : outer.length = maxNesting
      · simp [Waiters.read, hdepth] at hread
      · simp [Waiters.read, hdepth] at hread
        subst hread
        exact Or.inr ⟨above + 1, by simp, hholds⟩
  | closing =>
      cases outer with
      | nil =>
          cases hread
      | cons level outer =>
          cases hread
          cases above with
          | zero =>
              exact Or.inl hholds.closed
          | succ above =>
              refine Or.inr ⟨above, ?_, hholds⟩
              simp only [Token.balance_cons_closing, Token.balance_nil]
              omega
  | operator op =>
      cases above with
      | zero =>
          by_cases hrank : op.rank ≤ waiter.op.rank
          · exact Or.inl (hholds.overtaken hrank)
          · cases hread
            obtain ⟨tighter, looser, hlevel, htighter⟩ := hholds
            obtain rfl : inner = tighter ++ waiter :: looser := Option.some.inj hlevel
            have hlower := Nat.not_le.mp hrank
            refine Or.inr ⟨0, by simp, ⟨place, op⟩ :: Waiter.staying op tighter, looser, ?_, ?_⟩
            · rw [Waiter.staying_append hlower]
              rfl
            · refine List.forall_mem_cons.mpr ⟨hlower, ?_⟩
              intro earlier hearlier
              exact htighter earlier ((List.dropWhile_sublist _).subset hearlier)
      | succ above =>
          cases hread
          exact Or.inr ⟨above + 1, by simp, hholds⟩
  | bottom =>
      cases hread

/-- So do any tokens. -/
theorem reads
    {tokens : List Token} {made : List Due}
    (hholds : Holds waiter above waiters)
    (hreads : Reads place waiters tokens made after) :
    waiter.reduction ∈ made ∨
      ∃ left : Nat, (left : Int) = above + Token.balance tokens ∧ Holds waiter left after := by
  induction hreads generalizing above with
  | nil place waiters =>
      exact Or.inr ⟨above, by simp, hholds⟩
  | @cons place waiters between after token rest made hread _ ih =>
      rcases hholds.read hread with hnow | ⟨left, hleft, hholds⟩
      · exact Or.inl (List.mem_append_left _ hnow)
      · rcases ih hholds with hlater | ⟨last, hlast, hholds⟩
        · exact Or.inl (List.mem_append_right _ hlater)
        · refine Or.inr ⟨last, ?_, hholds⟩
          have hbalance := Token.balance_append [token] rest
          rw [List.singleton_append] at hbalance
          omega

end Holds
end Waiters
end Parse
end InfixCalc
