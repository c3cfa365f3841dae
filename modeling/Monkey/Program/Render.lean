/-
# The canonical form of a program

Every operation stands in parentheses, a block lists its statements between braces
with blanks between them, and every statement ends in a semicolon. Conditions and
callees get no parentheses of their own. The forms are lists of characters, because
reading takes characters and the two are meant to be compared; `render` makes a
string of them.
-/

import Monkey.Program.Basic

namespace Monkey

/-- The word for a truth value. -/
def boolText : Bool → String
  | true => "true"
  | false => "false"

/-- The decimal form of an integer, with a minus sign before a negative one. -/
def intText (value : Int64) : String := toString value.toInt

/-- Names with commas between them, as in a parameter list. -/
def nameList (names : List String) : List Char :=
  List.intercalate [',', ' '] (names.map String.toList)

/-- Statements in their written forms, between braces. -/
def braced (statements : List (List Char)) : List Char :=
  '{' :: List.intercalate [' '] statements ++ ['}']

mutual

/-- The written form of an expression. -/
def Expr.chars : Expr → List Char
  | .ident name => name.toList
  | .int value => (intText value).toList
  | .bool value => (boolText value).toList
  | .prefixOp op operand => '(' :: op.text.toList ++ operand.chars ++ [')']
  | .infixOp op left right =>
    '(' :: left.chars ++ ' ' :: op.text.toList ++ ' ' :: right.chars ++ [')']
  | .ifElse condition consequence none =>
    ['i', 'f', ' '] ++ condition.chars ++ ' ' :: braced (Stmt.charsList consequence)
  | .ifElse condition consequence (some alternative) =>
    ['i', 'f', ' '] ++ condition.chars ++ ' ' :: braced (Stmt.charsList consequence) ++
      [' ', 'e', 'l', 's', 'e', ' '] ++ braced (Stmt.charsList alternative)
  | .fn parameters body =>
    ['f', 'n', '('] ++ nameList parameters ++ [')', ' '] ++ braced (Stmt.charsList body)
  | .call callee arguments =>
    callee.chars ++ '(' :: List.intercalate [',', ' '] (Expr.charsList arguments) ++ [')']
  termination_by structural expr => expr

/-- The written form of a statement, its semicolon included. -/
def Stmt.chars : Stmt → List Char
  | .letBind name value =>
    ['l', 'e', 't', ' '] ++ name.toList ++ [' ', '=', ' '] ++ value.chars ++ [';']
  | .ret value => ['r', 'e', 't', 'u', 'r', 'n', ' '] ++ value.chars ++ [';']
  | .expr value => value.chars ++ [';']
  termination_by structural stmt => stmt

/-- The written forms of statements, in order. -/
def Stmt.charsList : List Stmt → List (List Char)
  | [] => []
  | stmt :: stmts => stmt.chars :: Stmt.charsList stmts
  termination_by structural stmts => stmts

/-- The written forms of expressions, in order. -/
def Expr.charsList : List Expr → List (List Char)
  | [] => []
  | expr :: exprs => expr.chars :: Expr.charsList exprs
  termination_by structural exprs => exprs

end

/-- A block in its canonical form, on one line. -/
def Block.render (block : Block) : String := String.ofList (braced (Stmt.charsList block))

/-- A whole program in its canonical form: each statement on a line of its own. -/
def Program.chars (program : Program) : List Char :=
  program.flatMap fun stmt => stmt.chars ++ ['\n']

/-- The canonical form of a program as a string. -/
def Program.render (program : Program) : String := String.ofList program.chars

end Monkey
