/-
# Binding levels

After a complete operand a token may carry the expression on: an operator with a
second operand, or a parenthesis that makes a call of it. How tightly each binds is
a level, and levels are compared by rank alone.
-/

import Monkey.Program.Basic
import Monkey.Token.Basic

namespace Monkey

/-- How tightly a construct binds its operands, from the loosest on. -/
inductive Level
  | lowest
  | equality
  | comparison
  | sum
  | product
  | prefixOp
  | call
  deriving DecidableEq, Repr

/-- The place of a level in the order. -/
def Level.rank : Level → Nat
  | lowest => 0
  | equality => 1
  | comparison => 2
  | sum => 3
  | product => 4
  | prefixOp => 5
  | call => 6

/-- The level of an operator between two operands. -/
def InfixOp.level : InfixOp → Level
  | equal => .equality
  | notEqual => .equality
  | lessThan => .comparison
  | greaterThan => .comparison
  | plus => .sum
  | minus => .sum
  | multiply => .product
  | divide => .product

/-- The operator that a symbol stands for between two operands. -/
def Symbol.infixOp? : Symbol → Option InfixOp
  | plus => some .plus
  | minus => some .minus
  | asterisk => some .multiply
  | slash => some .divide
  | lessThan => some .lessThan
  | greaterThan => some .greaterThan
  | equal => some .equal
  | notEqual => some .notEqual
  | _ => none

/-- What a token after a complete operand can make of it. -/
inductive Continuation
  | operator (op : InfixOp)
  | call
  deriving DecidableEq, Repr

/-- The level at which a continuation binds the operand before it. -/
def Continuation.level : Continuation → Level
  | operator op => op.level
  | call => .call

/-- The continuation that a token of this kind begins, if any. -/
def Kind.continuation? : Kind → Option Continuation
  | .symbol .leftParen => some .call
  | .symbol spelled => spelled.infixOp?.map .operator
  | _ => none

/-- The level of a token after an operand; the lowest for a token that ends the expression. -/
def Kind.level (kind : Kind) : Level :=
  match kind.continuation? with
  | some continuation => continuation.level
  | none => .lowest

/-- The continuation that a token begins for an operand inside a construct of the given
level. Equal levels do not continue, which is what makes operators associate to the left. -/
def Kind.continuationAbove? (kind : Kind) (level : Level) : Option Continuation :=
  kind.continuation?.filter fun continuation => level.rank < continuation.level.rank

end Monkey
