import InfixCalc.Expr
import InfixCalc.Parse.Builder

/-!
# Building sequences in reverse Polish order

The builder collects operands and operators in the order of the calls.  It
never looks at operands, so it refuses nothing.
-/

namespace InfixCalc
namespace Parse
namespace RpnBuilder

/-- Collects an operator; tokens stand last one first. -/
def emit (op : Operator) (collected : Rpn) : Reply Rpn :=
  ⟨.operator op :: collected, [⟨.debug, "emit ".toList ++ op.render⟩], none⟩

end RpnBuilder

/-- The builder of sequences in reverse Polish order. -/
def rpnBuilder : Builder Rpn Rpn where
  initial := []
  operand value collected := .number value :: collected
  reduce := RpnBuilder.emit
  reduceTrailing := RpnBuilder.emit
  finish collected := ⟨.ok collected.reverse, []⟩

end Parse
end InfixCalc
