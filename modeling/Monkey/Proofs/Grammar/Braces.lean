/-
# Braces in programs

Every opening brace of a program belongs to a block and has its closing brace, so behind a
program as many braces are open as before it. Reading goes by the same count when it skips a
broken statement, but there a closing brace may have no partner; in a program each one has.
-/

import Monkey.Parse.Tape
import Monkey.Proofs.Grammar.Basic

namespace Monkey.Grammar

/-- Behind the tokens as many braces are open as before them, however many these are. -/
def BracesMatch (kinds : List Kind) : Prop :=
  ∀ depth, kinds.foldl Tape.depthAfter depth = depth

namespace BracesMatch

theorem nil : BracesMatch [] := fun _ => rfl

theorem append {first second : List Kind} (isFirst : BracesMatch first)
    (isSecond : BracesMatch second) : BracesMatch (first ++ second) := by
  intro depth
  rw [List.foldl_append, isFirst, isSecond]

/-- A token that is no brace can stand anywhere. -/
theorem cons {kind : Kind} {kinds : List Kind}
    (noBrace : ∀ depth, Tape.depthAfter depth kind = depth)
    (areOthers : BracesMatch kinds) : BracesMatch (kind :: kinds) := by
  intro depth
  rw [List.foldl_cons, noBrace, areOthers]

theorem single {kind : Kind} (noBrace : ∀ depth, Tape.depthAfter depth kind = depth) :
    BracesMatch [kind] := nil.cons noBrace

/-- Tokens between parentheses, in front of others. -/
theorem group {kinds others : List Kind} (inner : BracesMatch kinds)
    (areOthers : BracesMatch others) :
    BracesMatch (.symbol .leftParen :: (kinds ++ .symbol .rightParen :: others)) :=
  (inner.append (areOthers.cons fun _ => rfl)).cons fun _ => rfl

/-- The brace that closes the tokens takes back the one that opens them. -/
theorem braces {kinds : List Kind} (inner : BracesMatch kinds) :
    BracesMatch (.symbol .leftBrace :: (kinds ++ [.symbol .rightBrace])) := by
  intro depth
  rw [List.foldl_cons, List.foldl_append, inner]
  rfl

theorem moreNames (bound : List String) : BracesMatch (moreNames bound) := by
  induction bound with
  | nil => exact .nil
  | cons name bound ih => exact (ih.cons fun _ => rfl).cons fun _ => rfl

theorem names (bound : List String) : BracesMatch (names bound) := by
  cases bound with
  | nil => exact .nil
  | cons name bound => exact (moreNames bound).cons fun _ => rfl

end BracesMatch

/-! ## Derivations -/

mutual

theorem IsExpr.bracesMatch {stratum : Stratum} {kinds : List Kind} {expr : Expr}
    (isExpr : IsExpr stratum kinds expr) : BracesMatch kinds := by
  match isExpr with
  | .tighter inner => exact inner.bracesMatch
  | @IsExpr.infixOp op _ _ _ _ first second =>
      exact first.bracesMatch.append (second.bracesMatch.cons fun _ => by cases op <;> rfl)
  | .prefixOp op inner => exact inner.bracesMatch.cons fun _ => by cases op <;> rfl
  | .call first given => exact first.bracesMatch.append (given.bracesMatch.group .nil)
  | .ident _ => exact .single fun _ => rfl
  | .int _ _ => exact .single fun _ => rfl
  | .trueWord => exact .single fun _ => rfl
  | .falseWord => exact .single fun _ => rfl
  | .group inner => exact inner.bracesMatch.group .nil
  | .ifThen first second => exact (first.bracesMatch.group second.bracesMatch).cons fun _ => rfl
  | .ifThenElse first second third =>
      have isElse : BracesMatch (.keyword .elseWord :: _) := third.bracesMatch.cons fun _ => rfl
      exact (first.bracesMatch.group (second.bracesMatch.append isElse)).cons fun _ => rfl
  | .fn parameters inner =>
      exact ((BracesMatch.names parameters).group inner.bracesMatch).cons fun _ => rfl

theorem IsArguments.bracesMatch {kinds : List Kind} {arguments : List Expr}
    (areArguments : IsArguments kinds arguments) : BracesMatch kinds := by
  match areArguments with
  | .none => exact .nil
  | .some isFirst areOthers => exact isFirst.bracesMatch.append areOthers.bracesMatch

theorem IsMoreArguments.bracesMatch {kinds : List Kind} {arguments : List Expr}
    (areArguments : IsMoreArguments kinds arguments) : BracesMatch kinds := by
  match areArguments with
  | .none => exact .nil
  | .some isFirst areOthers =>
      exact (isFirst.bracesMatch.append areOthers.bracesMatch).cons fun _ => rfl

theorem IsBlock.bracesMatch {kinds : List Kind} {stmts : Block} (isBlock : IsBlock kinds stmts) :
    BracesMatch kinds := by
  match isBlock with
  | .braces inner => exact inner.bracesMatch.braces

theorem IsStmt.bracesMatch {kinds : List Kind} {stmt : Stmt} (isStmt : IsStmt kinds stmt) :
    BracesMatch kinds := by
  match isStmt with
  | .letBind _ inner =>
      exact ((inner.bracesMatch.cons fun _ => rfl).cons fun _ => rfl).cons fun _ => rfl
  | .ret inner => exact inner.bracesMatch.cons fun _ => rfl
  | .expr inner => exact inner.bracesMatch

/-- The braces of a program come in pairs. -/
theorem IsProgram.bracesMatch {kinds : List Kind} {stmts : Program}
    (isProgram : IsProgram kinds stmts) : BracesMatch kinds := by
  match isProgram with
  | .nil => exact .nil
  | .ended isFirst areOthers =>
      exact isFirst.bracesMatch.append (areOthers.bracesMatch.cons fun _ => rfl)
  | .unended isFirst areOthers _ => exact isFirst.bracesMatch.append areOthers.bracesMatch

end

end Monkey.Grammar
