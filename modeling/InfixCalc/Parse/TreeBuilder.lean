import InfixCalc.Expr
import InfixCalc.Parse.Builder

/-!
# Building trees

The tree builder keeps a stack of finished subtrees.  A reduction combines the
two on top; while tokens are being read both have to be there, and after the
last token a missing one is taken to be zero.  Trees have a limited number of
levels.
-/

namespace InfixCalc
namespace Parse

/-- How many levels a tree may have. -/
def maxLevels : Nat := 2048

/-- A finished subtree with its number of levels. -/
structure Subtree where
  tree : Expr
  levels : Nat
  deriving DecidableEq, Repr

namespace Subtree

/-- An operand as a subtree. -/
def leaf (value : Value) : Subtree :=
  ⟨.number value, 1⟩

end Subtree

namespace TreeBuilder

/-- Combines two subtrees above the `below`, unless the result has too many
levels. -/
def combine (op : Operator) (left right : Subtree) (below : List Subtree)
    (earlier : List Record) : Reply (List Subtree) :=
  let levels := 1 + max left.levels right.levels
  if maxLevels < levels then
    ⟨below,
      earlier ++ [⟨.error, "tree for operator '".toList ++ op.render ++
        "' exceeds ".toList ++ Text.ofNat maxLevels ++ " levels".toList⟩],
      some (.treeTooDeep maxLevels)⟩
  else
    ⟨⟨.binary op left.tree right.tree, levels⟩ :: below,
      earlier ++ [⟨.debug, "reduce ".toList ++ op.render ++ " at depth ".toList ++
        Text.ofNat levels⟩],
      none⟩

/-- Combines the two subtrees on top.  If there are fewer, those are lost. -/
def reduce (op : Operator) : List Subtree → Reply (List Subtree)
  | right :: left :: below => combine op left right below []
  | _ => ⟨[], [], some (.missingOperand op)⟩

/-- The record of an operand that is taken to be zero. -/
def paddingRecord (op : Operator) : Record :=
  ⟨.warn, "operator '".toList ++ op.render ++ "' is missing an operand, using 0".toList⟩

/-- Combines the two subtrees on top, with zero for each that is missing. -/
def reduceTrailing (op : Operator) : List Subtree → Reply (List Subtree)
  | right :: left :: below => combine op left right below []
  | [right] => combine op (.leaf 0) right [] [paddingRecord op]
  | [] => combine op (.leaf 0) (.leaf 0) [] [paddingRecord op, paddingRecord op]

/-- The tree on top is the result; what is left below it is discarded. -/
def finish : List Subtree → Finish Expr
  | [] => ⟨.error .emptyExpression, []⟩
  | [root] => ⟨.ok root.tree, []⟩
  | root :: below =>
    ⟨.ok root.tree, [⟨.warn, "discarding ".toList ++ Text.ofNat below.length ++
      " operand(s) left below the root of the tree".toList⟩]⟩

end TreeBuilder

/-- The builder of expression trees. -/
def treeBuilder : Builder (List Subtree) Expr where
  initial := []
  operand value subtrees := .leaf value :: subtrees
  reduce := TreeBuilder.reduce
  reduceTrailing := TreeBuilder.reduceTrailing
  finish := TreeBuilder.finish

end Parse
end InfixCalc
