import InfixCalc.Parse.Pass
import InfixCalc.Parse.RpnBuilder
import InfixCalc.Parse.TreeBuilder

/-!
# Parsing

The tree and the sequence in reverse Polish order of an infix token list.
Both come from the same pass with different builders.
-/

namespace InfixCalc
namespace Parse

/-- The pass that builds the tree of a token list. -/
def treeRun (tokens : List Token) : Run Expr :=
  run treeBuilder tokens

/-- The pass that builds the sequence in reverse Polish order. -/
def rpnRun (tokens : List Token) : Run Rpn :=
  run rpnBuilder tokens

end Parse

namespace Expr

/-- The tree of an infix token list. -/
def ofInfix (tokens : List Token) : Except ParseError Expr :=
  (Parse.treeRun tokens).result

end Expr

namespace Rpn

/-- The sequence in reverse Polish order of an infix token list. -/
def ofInfix (tokens : List Token) : Except ParseError Rpn :=
  (Parse.rpnRun tokens).result

end Rpn
end InfixCalc
