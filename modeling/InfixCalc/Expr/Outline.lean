import InfixCalc.Expr
import InfixCalc.Text.Words

/-!
# Outlines

The outline of an expression has one line for every node and leaf: an
operator stands above its operands, and every level is indented by the same
number of spaces.
-/

namespace InfixCalc
namespace Expr

/-- The lines of the outline; the lines of both subtrees are indented as
blocks. -/
def outlineLines (indent : Nat) : Expr → List Text
  | number value => [Text.ofValue value]
  | binary op left right =>
    op.render ::
      (left.outlineLines indent ++ right.outlineLines indent).map
        (List.replicate indent ' ' ++ ·)

/-- The outline of an expression. -/
def outline (indent : Nat) (tree : Expr) : Text :=
  Text.unlines (tree.outlineLines indent)

end Expr
end InfixCalc
