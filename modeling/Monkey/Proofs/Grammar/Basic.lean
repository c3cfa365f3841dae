/-
# The grammar

Which token sequences are programs, and which tree each of them is. Expressions come in
strata. Each binary operator belongs to one stratum and takes its left operand from that
stratum and its right operand from the next tighter one, so it associates to the left.
Behind the binary strata come prefix operators, then calls, then what stands by itself.

Statements may leave out their semicolon, which could leave open where one ends and the
next begins. The grammar decides it: a statement without a semicolon is not followed by
a binary operator or by an opening parenthesis, since either of them belongs to it.

Nothing here reads tokens from left to right, and nothing compares levels.
-/

import Monkey.Program.Basic
import Monkey.Token.Basic

namespace Monkey

/-- The symbol of an operator before its operand. -/
def PrefixOp.symbol : PrefixOp → Symbol
  | minus => .minus
  | bang => .bang

/-- The symbol of an operator between its operands. -/
def InfixOp.symbol : InfixOp → Symbol
  | plus => .plus
  | minus => .minus
  | multiply => .asterisk
  | divide => .slash
  | lessThan => .lessThan
  | greaterThan => .greaterThan
  | equal => .equal
  | notEqual => .notEqual

namespace Grammar

/-- The strata of expressions, the loosest first. -/
inductive Stratum
  | equality
  | relational
  | additive
  | multiplicative
  | unary
  | call
  | primary
  deriving DecidableEq

/-- The next tighter stratum. Nothing is tighter than what stands by itself. -/
def Stratum.tighter : Stratum → Stratum
  | equality => relational
  | relational => additive
  | additive => multiplicative
  | multiplicative => unary
  | unary => call
  | call => primary
  | primary => primary

/-- The stratum that a binary operator makes. -/
def stratum : InfixOp → Stratum
  | .equal => .equality
  | .notEqual => .equality
  | .lessThan => .relational
  | .greaterThan => .relational
  | .plus => .additive
  | .minus => .additive
  | .multiply => .multiplicative
  | .divide => .multiplicative

/-- A binary operator or an opening parenthesis, which belongs to the operand before it. -/
inductive Continues : Kind → Prop
  | operator (op : InfixOp) : Continues (.symbol op.symbol)
  | call : Continues (.symbol .leftParen)

/-- The number that digits denote. -/
def number (digits : String) : Nat := Nat.ofDigitChars 10 digits.toList 0

/-- Names behind the first one, each with a comma before it. -/
def moreNames : List String → List Kind
  | [] => []
  | name :: names => .symbol .comma :: .ident name :: moreNames names

/-- Names with commas between them. -/
def names : List String → List Kind
  | [] => []
  | name :: names => .ident name :: moreNames names

mutual

/-- The tokens are an expression of the stratum. -/
inductive IsExpr : Stratum → List Kind → Expr → Prop
  | tighter {stratum kinds expr} (inner : IsExpr stratum.tighter kinds expr) :
    IsExpr stratum kinds expr
  | infixOp {op left right leftKinds rightKinds}
    (first : IsExpr (stratum op) leftKinds left)
    (second : IsExpr (stratum op).tighter rightKinds right) :
    IsExpr (stratum op) (leftKinds ++ .symbol op.symbol :: rightKinds) (.infixOp op left right)
  | prefixOp (op : PrefixOp) {kinds operand} (inner : IsExpr .unary kinds operand) :
    IsExpr .unary (.symbol op.symbol :: kinds) (.prefixOp op operand)
  | call {callee arguments kinds argumentKinds} (first : IsExpr .call kinds callee)
    (given : IsArguments argumentKinds arguments) :
    IsExpr .call (kinds ++ .symbol .leftParen :: (argumentKinds ++ [.symbol .rightParen]))
      (.call callee arguments)
  | ident (name : String) : IsExpr .primary [.ident name] (.ident name)
  | int (digits : String) (fits : number digits ≤ Nat.pow 2 63 - 1) :
    IsExpr .primary [.int digits] (.int (Int64.ofNat (number digits)))
  | trueWord : IsExpr .primary [.keyword .trueWord] (.bool true)
  | falseWord : IsExpr .primary [.keyword .falseWord] (.bool false)
  | group {kinds expr} (inner : IsExpr .equality kinds expr) :
    IsExpr .primary (.symbol .leftParen :: (kinds ++ [.symbol .rightParen])) expr
  | ifThen {condition consequence kinds blockKinds} (first : IsExpr .equality kinds condition)
    (second : IsBlock blockKinds consequence) :
    IsExpr .primary
      (.keyword .ifWord :: .symbol .leftParen :: (kinds ++ .symbol .rightParen :: blockKinds))
      (.ifElse condition consequence none)
  | ifThenElse {condition consequence alternative kinds blockKinds otherKinds}
    (first : IsExpr .equality kinds condition) (second : IsBlock blockKinds consequence)
    (third : IsBlock otherKinds alternative) :
    IsExpr .primary
      (.keyword .ifWord :: .symbol .leftParen ::
        (kinds ++ .symbol .rightParen :: (blockKinds ++ .keyword .elseWord :: otherKinds)))
      (.ifElse condition consequence (some alternative))
  | fn (parameters : List String) {body kinds} (inner : IsBlock kinds body) :
    IsExpr .primary
      (.keyword .function :: .symbol .leftParen ::
        (names parameters ++ .symbol .rightParen :: kinds))
      (.fn parameters body)

/-- The tokens are expressions with commas between them. -/
inductive IsArguments : List Kind → List Expr → Prop
  | none : IsArguments [] []
  | some {first others kinds moreKinds} (isFirst : IsExpr .equality kinds first)
    (areOthers : IsMoreArguments moreKinds others) :
    IsArguments (kinds ++ moreKinds) (first :: others)

/-- The tokens are expressions, each with a comma before it. -/
inductive IsMoreArguments : List Kind → List Expr → Prop
  | none : IsMoreArguments [] []
  | some {first others kinds moreKinds} (isFirst : IsExpr .equality kinds first)
    (areOthers : IsMoreArguments moreKinds others) :
    IsMoreArguments (.symbol .comma :: (kinds ++ moreKinds)) (first :: others)

/-- The tokens are statements between braces. -/
inductive IsBlock : List Kind → Block → Prop
  | braces {kinds stmts} (inner : IsProgram kinds stmts) :
    IsBlock (.symbol .leftBrace :: (kinds ++ [.symbol .rightBrace])) stmts

/-- The tokens are a statement without its semicolon. -/
inductive IsStmt : List Kind → Stmt → Prop
  | letBind (name : String) {kinds value} (inner : IsExpr .equality kinds value) :
    IsStmt (.keyword .letWord :: .ident name :: .symbol .assign :: kinds) (.letBind name value)
  | ret {kinds value} (inner : IsExpr .equality kinds value) :
    IsStmt (.keyword .returnWord :: kinds) (.ret value)
  | expr {kinds value} (inner : IsExpr .equality kinds value) : IsStmt kinds (.expr value)

/-- The tokens are statements. One without a semicolon ends where nothing carries it on. -/
inductive IsProgram : List Kind → Program → Prop
  | nil : IsProgram [] []
  | ended {first others kinds moreKinds} (isFirst : IsStmt kinds first)
    (areOthers : IsProgram moreKinds others) :
    IsProgram (kinds ++ .symbol .semicolon :: moreKinds) (first :: others)
  | unended {first others kinds moreKinds} (isFirst : IsStmt kinds first)
    (areOthers : IsProgram moreKinds others)
    (apart : ∀ kind ∈ moreKinds.head?, ¬ Continues kind) :
    IsProgram (kinds ++ moreKinds) (first :: others)

end

end Grammar

end Monkey
