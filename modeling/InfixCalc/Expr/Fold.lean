import InfixCalc.Expr

/-!
# Folds with effects

A fold asks a function about every leaf and, after both subtrees, another one
about every node, which gets the answers for the two subtrees.  The answers
live in a monad, so that a fold may keep a state and may give up.

`Expr.countLeaves` is a fold that counts leaves, notes every visit and gives
up at a visit of choice.
-/

namespace InfixCalc
namespace Expr

/-- Folds the left subtree, then the right one, then the node itself. -/
def foldM {m : Type → Type} [Monad m] {ρ : Type}
    (leaf : Value → m ρ) (node : Operator → ρ → ρ → m ρ) :
    Expr → m ρ
  | number value => leaf value
  | binary op left right => do
    let atLeft ← left.foldM leaf node
    let atRight ← right.foldM leaf node
    node op atLeft atRight

/-- A visit, with the numbers of leaves of the two subtrees of a node. -/
inductive Visit where
  | leaf (value : Value)
  | node (op : Operator) (leftLeaves rightLeaves : Nat)
  deriving DecidableEq, Repr

/-- Counting keeps the visits, the last one first, and gives up with their
number. -/
abbrev CountM := EStateM Nat (List Visit)

namespace Visit

/-- Notes a visit and answers `leaves`, or gives up when it is the visit
number `stopAt?`. -/
def note (stopAt? : Option Nat) (leaves : Nat) (visit : Visit) : CountM Nat := do
  modify (visit :: ·)
  let visits ← get
  if stopAt? = some visits.length then
    throw visits.length
  return leaves

end Visit

/-- Counts the leaves. -/
def countLeaves (stopAt? : Option Nat) (tree : Expr) : CountM Nat :=
  tree.foldM
    (fun value => (Visit.leaf value).note stopAt? 1)
    (fun op left right => (Visit.node op left right).note stopAt? (left + right))

end Expr
end InfixCalc
