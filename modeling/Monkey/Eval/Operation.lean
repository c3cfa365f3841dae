/-
# Operations on values

Arithmetic is that of 64-bit integers: results wrap around, and a quotient is rounded
towards zero. Order is defined on integers alone, equality on all values.
-/

import Monkey.Eval.Fault

namespace Monkey

/-- Apply an operator to one value. Every value can be negated as a truth value. -/
def PrefixOp.apply : PrefixOp → Value → Except Fault Value
  | bang, operand => .ok (.bool !operand.truthy)
  | minus, .int value => .ok (.int (-value))
  | minus, operand => .error (.unknownPrefixOperator minus operand.kind)

/-- Apply an operator to two integers. -/
def InfixOp.applyInt (left right : Int64) : InfixOp → Except Fault Value
  | plus => .ok (.int (left + right))
  | minus => .ok (.int (left - right))
  | multiply => .ok (.int (left * right))
  | divide => if right = 0 then .error .divisionByZero else .ok (.int (left / right))
  | lessThan => .ok (.bool (left < right))
  | greaterThan => .ok (.bool (right < left))
  | equal => .ok (.bool (left == right))
  | notEqual => .ok (.bool (left != right))

/-- Apply an operator to two values. -/
def InfixOp.apply (op : InfixOp) : Value → Value → Except Fault Value
  | .int left, .int right => op.applyInt left right
  | left, right =>
    match op with
    | equal => .ok (.bool (left.same right))
    | notEqual => .ok (.bool !left.same right)
    | _ =>
      if left.kind = right.kind then .error (.unknownInfixOperator op left.kind right.kind)
      else .error (.typeMismatch op left.kind right.kind)

end Monkey
