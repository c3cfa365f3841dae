/-
# Faults

The ways in which running a program goes wrong, as causes. The wording is a function
of the cause.
-/

import Monkey.Store.Value

namespace Monkey

/-- What went wrong in a running program. -/
inductive Fault
  /-- No frame of the scope binds the name. -/
  | unknownIdentifier (name : String)
  /-- The operator has no meaning for an operand of this kind. -/
  | unknownPrefixOperator (op : PrefixOp) (operand : ValueKind)
  /-- The operator has no meaning for two operands of this one kind. -/
  | unknownInfixOperator (op : InfixOp) (left right : ValueKind)
  /-- The operator has no meaning for operands of different kinds. -/
  | typeMismatch (op : InfixOp) (left right : ValueKind)
  /-- The divisor is zero. -/
  | divisionByZero
  /-- A value of this kind was called. -/
  | notAFunction (kind : ValueKind)
  /-- A function was called with the wrong number of arguments. -/
  | wrongArgumentCount (expected actual : Nat)
  /-- A function was called whose home has been released. -/
  | releasedEnvironment
  deriving DecidableEq, Repr

namespace Fault

/-- The text that the user sees. -/
def message : Fault → String
  | unknownIdentifier name => "identifier not found: " ++ name
  | unknownPrefixOperator op operand => "unknown operator: " ++ op.text ++ operand.text
  | unknownInfixOperator op left right =>
    "unknown operator: " ++ left.text ++ " " ++ op.text ++ " " ++ right.text
  | typeMismatch op left right =>
    "type mismatch: " ++ left.text ++ " " ++ op.text ++ " " ++ right.text
  | divisionByZero => "division by zero"
  | notAFunction kind => "not a function: " ++ kind.text
  | wrongArgumentCount expected actual =>
    "wrong number of arguments: expected " ++ toString expected ++ ", got " ++ toString actual
  | releasedEnvironment => "function environment was released"

end Fault

end Monkey
