import InfixCalc.Proofs.StackRun

/-!
# Trees recovered from their sequences

In reverse Polish order a tree ends where its sequence ends, and its last token
says how many trees stand before it.  So a sequence can be taken apart from its
end in one way only.

A run on a stack of values reads trees one after another: whatever it has read
so far is spelled by trees that have the values on the stack.  A sequence that
leaves a single value is therefore the sequence of a single tree.

* `Expr.append_toRpn_inj` : a tree at the end of a sequence is determined by the
  sequence.
* `Rpn.Spelled` : the tokens that were read for a stack of values.
* `Rpn.has_value_iff_tree` : the sequences that have a value.
-/

namespace InfixCalc

namespace Expr

/-- The tree at the end of a sequence, and the tokens before it, are determined
by the sequence. -/
theorem append_toRpn_inj
    {tree other : Expr} {before earlier : Rpn}
    (hequal : before ++ tree.toRpn = earlier ++ other.toRpn) :
    before = earlier ∧ tree = other := by
  induction tree generalizing other before earlier with
  | number value =>
      cases other with
      | number second =>
          obtain ⟨hbefore, hlast⟩ := List.append_inj' hequal rfl
          cases hlast
          exact ⟨hbefore, rfl⟩
      | binary op left right =>
          rw [toRpn, toRpn, ← List.append_assoc] at hequal
          cases (List.append_inj' hequal rfl).2
  | binary op left right ihLeft ihRight =>
      cases other with
      | number second =>
          rw [toRpn, toRpn, ← List.append_assoc] at hequal
          cases (List.append_inj' hequal rfl).2
      | binary next first second =>
          rw [toRpn, toRpn, ← List.append_assoc, ← List.append_assoc, ← List.append_assoc,
            ← List.append_assoc] at hequal
          obtain ⟨hboth, hlast⟩ := List.append_inj' hequal rfl
          cases hlast
          -- the right subtree is the last one of what is left, then the left one is
          obtain ⟨hleft, rfl⟩ := ihRight hboth
          obtain ⟨hbefore, rfl⟩ := ihLeft hleft
          exact ⟨hbefore, rfl⟩

theorem toRpn_inj
    {tree other : Expr}
    (hequal : tree.toRpn = other.toRpn) :
    tree = other := by
  have happend : [] ++ tree.toRpn = [] ++ other.toRpn := by
    rw [hequal]
  exact (append_toRpn_inj happend).2

end Expr

namespace Rpn

/-- The tokens that were read for a stack of values, its top first: they spell
trees with these values, that of the top last. -/
inductive Spelled : List Value → Rpn → Prop
  | nil :
      Spelled [] []
  | cons {values : List Value} {rpn : Rpn} {value : Value} (tree : Expr) :
      Spelled values rpn →
      tree.evaluate = .ok value →
      Spelled (value :: values) (rpn ++ tree.toRpn)

/-- A step reads an operand as a tree, or joins the last two trees by an
operator. -/
theorem Spelled.step
    {values after : List Value} {rpn : Rpn} {token : Token}
    (hspelled : Spelled values rpn)
    (hstep : stackStep values token = .ok after) :
    Spelled after (rpn ++ [token]) := by
  rcases stackStep_eq_ok hstep with
    ⟨value, rfl, rfl⟩ | ⟨op, right, left, below, result, rfl, rfl, happly, rfl⟩
  · exact .cons (.number value) hspelled rfl
  · cases hspelled with
    | cons second hfirst hsecond =>
        cases hfirst with
        | @cons _ before _ first hbelow hfirst =>
            have hvalue : (Expr.binary op first second).evaluate = .ok result := by
              rw [Expr.evaluate_binary, hfirst, hsecond]
              exact happly
            have hjoined := Spelled.cons (.binary op first second) hbelow hvalue
            simpa [Expr.toRpn] using hjoined

/-- What a run reads is spelled by trees, if what was read before is. -/
theorem Spelled.run
    {values after : List Value} {before rpn : Rpn}
    (hspelled : Spelled values before)
    (hrun : stackRun values rpn = .ok after) :
    Spelled after (before ++ rpn) := by
  induction rpn generalizing values before with
  | nil =>
      cases hrun
      simpa using hspelled
  | cons token rest ih =>
      rw [stackRun_cons] at hrun
      obtain ⟨next, hstep, hrest⟩ := bind_eq_ok.mp hrun
      have hread := ih (hspelled.step hstep) hrest
      simpa using hread

/-- A sequence with a value is the sequence of a tree with this value. -/
theorem exists_tree_of_evaluate
    {rpn : Rpn} {value : Value}
    (hvalue : rpn.evaluate = .ok value) :
    ∃ tree : Expr, tree.toRpn = rpn ∧ tree.evaluate = .ok value := by
  rw [evaluate_eq_stackRun] at hvalue
  obtain ⟨values, hrun, hsingle⟩ := bind_eq_ok.mp hvalue
  cases single_eq_ok hsingle
  have hspelled := Spelled.nil.run hrun
  rw [List.nil_append] at hspelled
  cases hspelled with
  | cons tree hbelow htree =>
      cases hbelow
      exact ⟨tree, rfl, htree⟩

/-- A sequence has a value just when it is the sequence of a tree with this
value, and then it is the sequence of no other tree.  Different trees have
different sequences, and every sequence that is that of no tree has an error. -/
theorem has_value_iff_tree :
    (∀ (rpn : Rpn) (value : Value),
      rpn.evaluate = .ok value ↔
        ∃ tree : Expr,
          tree.toRpn = rpn ∧
          tree.evaluate = .ok value ∧
          ∀ other : Expr, other.toRpn = rpn → other = tree) ∧
    (∀ tree other : Expr, tree.toRpn = other.toRpn → tree = other) ∧
    ∀ rpn : Rpn,
      (∀ tree : Expr, tree.toRpn ≠ rpn) →
      ∃ error, rpn.evaluate = .error error := by
  refine ⟨?_, ?_, ?_⟩
  · intro rpn value
    constructor
    · intro hvalue
      obtain ⟨tree, rfl, htree⟩ := exists_tree_of_evaluate hvalue
      exact ⟨tree, rfl, htree, fun other hother => Expr.toRpn_inj hother⟩
    · rintro ⟨tree, rfl, htree, -⟩
      rw [evaluate_toRpn, htree]
  · intro tree other hequal
    exact Expr.toRpn_inj hequal
  · intro rpn hnone
    cases hvalue : rpn.evaluate with
    | ok value =>
        obtain ⟨tree, htree, -⟩ := exists_tree_of_evaluate hvalue
        exact absurd htree (hnone tree)
    | error error =>
        exact ⟨error, rfl⟩

/-- The sequence `8 3 - 2 -` has one tree, with the value 3; in `8 3 2 -` an
operand is left over, and the sequence has none. -/
theorem has_value_iff_tree_difference :
    (∃ tree : Expr,
      tree.toRpn =
        [.number 8, .number 3, .operator .minus, .number 2, .operator .minus] ∧
      tree.evaluate = .ok 3 ∧
      ∀ other : Expr, other.toRpn = tree.toRpn → other = tree) ∧
    ∃ error, Rpn.evaluate [.number 8, .number 3, .number 2, .operator .minus] = .error error := by
  obtain ⟨hvalue, hinj, herror⟩ := has_value_iff_tree
  constructor
  · have hthree :
        Rpn.evaluate [.number 8, .number 3, .operator .minus, .number 2, .operator .minus] =
          .ok 3 := by
      rfl
    obtain ⟨tree, htree, hevaluate, -⟩ := (hvalue _ 3).mp hthree
    exact ⟨tree, htree, hevaluate, fun other hother => hinj other tree hother⟩
  · apply herror
    intro tree htree
    -- the end would be the tree `3 - 2`, with the operand 8 before it
    have hend : [] ++ tree.toRpn =
        [.number 8] ++ (Expr.binary .minus (.number 3) (.number 2)).toRpn :=
      htree
    cases (Expr.append_toRpn_inj hend).1

end Rpn
end InfixCalc
