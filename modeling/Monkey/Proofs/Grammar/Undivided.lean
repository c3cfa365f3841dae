/-
# Statements as skipping sees them

Skipping a broken statement goes by the braces that are open and by one token more. Outside of
every brace a statement has no semicolon but its own, and behind the brace of a block that is
part of an expression comes nothing but an `else`, an operator, or one of the tokens that
surround an operand: a parenthesis or a comma. The last two are those that skipping takes for
the beginning of another statement.
-/

import Monkey.Proofs.Grammar.Braces

namespace Monkey.Grammar

/-- What can stand behind the closing brace of a block within a statement. -/
inductive Follows : Kind → Prop
  | elseWord : Follows (.keyword .elseWord)
  | continues {kind : Kind} (isNext : Continues kind) : Follows kind
  | comma : Follows (.symbol .comma)
  | rightParen : Follows (.symbol .rightParen)

/-- With so many braces open before them, the tokens look like part of one statement: outside of
every brace there is no semicolon, and a block that ends there is followed by what belongs to
the same statement. -/
def Undivided : Nat → List Kind → Prop
  | _, [] => True
  | depth, kind :: others =>
    (Tape.depthAfter depth kind = 0 → kind ≠ .symbol .semicolon ∧
      (kind = .symbol .rightBrace → ∀ next ∈ others.head?, Follows next)) ∧
    Undivided (Tape.depthAfter depth kind) others

/-- One brace more that is open before the tokens is one more behind them, or it makes no
difference there. -/
theorem depthAfter_succ (depth : Nat) (kind : Kind) :
    Tape.depthAfter (depth + 1) kind = Tape.depthAfter depth kind + 1 ∨
      Tape.depthAfter (depth + 1) kind = Tape.depthAfter depth kind := by
  by_cases isBrace : kind = .symbol .rightBrace
  · subst isBrace
    show depth + 1 - 1 = depth - 1 + 1 ∨ depth + 1 - 1 = depth - 1
    omega
  · left
    cases kind with
    | symbol spelled => cases spelled <;> first | rfl | exact absurd rfl isBrace
    | _ => rfl

namespace Undivided

theorem nil {depth : Nat} : Undivided depth [] := trivial

theorem append {depth : Nat} {first second : List Kind} (isFirst : Undivided depth first)
    (isSecond : Undivided (first.foldl Tape.depthAfter depth) second)
    (apart : first.foldl Tape.depthAfter depth = 0 → ∀ next ∈ second.head?, Follows next) :
    Undivided depth (first ++ second) := by
  induction first generalizing depth with
  | nil => exact isSecond
  | cons kind others ih =>
      obtain ⟨ends, areOthers⟩ := isFirst
      refine ⟨fun outside => ⟨(ends outside).1, fun isBrace next isNext => ?_⟩,
        ih areOthers isSecond apart⟩
      cases others with
      | nil => exact apart outside next isNext
      | cons other others => exact (ends outside).2 isBrace next isNext

/-- Tokens behind others that open and close their own braces. -/
theorem join {first second : List Kind} (isFirst : Undivided 0 first) (matched : BracesMatch first)
    (isSecond : Undivided 0 second) (apart : ∀ next ∈ second.head?, Follows next) :
    Undivided 0 (first ++ second) := by
  apply isFirst.append _ fun _ => apart
  rw [matched]
  exact isSecond

/-- What is left of the tokens when some have been passed. -/
theorem behind {depth : Nat} {first second : List Kind}
    (undivided : Undivided depth (first ++ second)) :
    Undivided (first.foldl Tape.depthAfter depth) second := by
  induction first generalizing depth with
  | nil => exact undivided
  | cons kind others ih => exact ih undivided.2

/-- A semicolon outside of every brace is not part of the tokens. -/
theorem not_semicolon {depth : Nat} {first second : List Kind}
    (undivided : Undivided depth (first ++ .symbol .semicolon :: second)) :
    first.foldl Tape.depthAfter depth ≠ 0 :=
  fun outside => (undivided.behind.1 outside).1 rfl

/-- Inside a pair of braces nothing stands outside of every brace. If the tokens closed the outer
one, it would make no difference behind them that it was open before. -/
theorem inside {kinds : List Kind} (matched : BracesMatch kinds) (depth : Nat) :
    Undivided (depth + 1) kinds := by
  have differs : kinds.foldl Tape.depthAfter (depth + 1) ≠ kinds.foldl Tape.depthAfter depth := by
    rw [matched, matched]
    exact Nat.succ_ne_self depth
  clear matched
  induction kinds generalizing depth with
  | nil => trivial
  | cons kind others ih =>
      rw [List.foldl_cons, List.foldl_cons] at differs
      rcases depthAfter_succ depth kind with isMore | isSame
      · rw [isMore] at differs
        refine ⟨fun outside => ?_, ?_⟩
        · rw [isMore] at outside
          cases outside
        · rw [isMore]
          exact ih _ differs
      · rw [isSame] at differs
        exact absurd rfl differs

/-- A token that is no brace and no semicolon can stand anywhere. -/
theorem cons {kind : Kind} {kinds : List Kind} {depth : Nat}
    (noBrace : ∀ depth, Tape.depthAfter depth kind = depth)
    (notSemicolon : kind ≠ .symbol .semicolon) (areOthers : Undivided depth kinds) :
    Undivided depth (kind :: kinds) := by
  refine ⟨fun _ => ⟨notSemicolon, ?_⟩, ?_⟩
  · rintro rfl
    cases noBrace 1
  · rw [noBrace]
    exact areOthers

theorem single {kind : Kind} {depth : Nat} (noBrace : ∀ depth, Tape.depthAfter depth kind = depth)
    (notSemicolon : kind ≠ .symbol .semicolon) : Undivided depth [kind] :=
  cons noBrace notSemicolon nil

/-- Tokens between braces, as one block. -/
theorem braces {kinds : List Kind} (matched : BracesMatch kinds) :
    Undivided 0 (.symbol .leftBrace :: (kinds ++ [.symbol .rightBrace])) := by
  refine ⟨fun outside => absurd outside (Nat.succ_ne_zero 0), ?_⟩
  apply append (inside matched 0)
  · exact ⟨fun _ => ⟨by simp, by simp⟩, nil⟩
  · intro outside
    rw [matched] at outside
    cases outside

/-- Tokens between parentheses, in front of others. -/
theorem group {kinds others : List Kind} (inner : Undivided 0 kinds) (matched : BracesMatch kinds)
    (areOthers : Undivided 0 others) :
    Undivided 0 (.symbol .leftParen :: (kinds ++ .symbol .rightParen :: others)) := by
  apply cons (fun _ => rfl) (by simp)
  apply append inner
  · rw [matched]
    exact cons (fun _ => rfl) (by simp) areOthers
  · rintro - _ ⟨⟩
    exact .rightParen

theorem moreNames (bound : List String) : Undivided 0 (moreNames bound) := by
  induction bound with
  | nil => exact nil
  | cons name bound ih => exact cons (fun _ => rfl) (by simp) (cons (fun _ => rfl) (by simp) ih)

theorem names (bound : List String) : Undivided 0 (names bound) := by
  cases bound with
  | nil => exact nil
  | cons name bound => exact cons (fun _ => rfl) (by simp) (moreNames bound)

end Undivided

/-! ## Derivations -/

theorem IsMoreArguments.follows {kinds : List Kind} {arguments : List Expr}
    (areArguments : IsMoreArguments kinds arguments) : ∀ next ∈ kinds.head?, Follows next := by
  cases areArguments with
  | none => simp
  | some isFirst areOthers =>
      rintro _ ⟨⟩
      exact .comma

/-- What belongs to the operand before it goes on there. -/
theorem follows_cons {kind : Kind} (follows : Follows kind) (kinds : List Kind) :
    ∀ next ∈ (kind :: kinds).head?, Follows next := by
  rintro _ ⟨⟩
  exact follows

theorem IsBlock.undivided {kinds : List Kind} {stmts : Block} (isBlock : IsBlock kinds stmts) :
    Undivided 0 kinds := by
  cases isBlock with
  | braces inner => exact .braces inner.bracesMatch

mutual

theorem IsExpr.undivided {stratum : Stratum} {kinds : List Kind} {expr : Expr}
    (isExpr : IsExpr stratum kinds expr) : Undivided 0 kinds := by
  match isExpr with
  | .tighter inner => exact inner.undivided
  | @IsExpr.infixOp op _ _ _ _ first second =>
      have isOperator : Undivided 0 (.symbol op.symbol :: _) :=
        second.undivided.cons (fun _ => by cases op <;> rfl) (by cases op <;> simp [InfixOp.symbol])
      exact first.undivided.join first.bracesMatch isOperator
        (follows_cons (.continues (.operator op)) _)
  | .prefixOp op inner =>
      exact inner.undivided.cons (fun _ => by cases op <;> rfl)
        (by cases op <;> simp [PrefixOp.symbol])
  | .call first given =>
      exact first.undivided.join first.bracesMatch (given.undivided.group given.bracesMatch .nil)
        (follows_cons (.continues .call) _)
  | .ident _ => exact .single (fun _ => rfl) (by simp)
  | .int _ _ => exact .single (fun _ => rfl) (by simp)
  | .trueWord => exact .single (fun _ => rfl) (by simp)
  | .falseWord => exact .single (fun _ => rfl) (by simp)
  | .group inner => exact inner.undivided.group inner.bracesMatch .nil
  | .ifThen first second =>
      exact (first.undivided.group first.bracesMatch second.undivided).cons (fun _ => rfl) (by simp)
  | .ifThenElse first second third =>
      have isElse : Undivided 0 (.keyword .elseWord :: _) :=
        third.undivided.cons (fun _ => rfl) (by simp)
      have isBehind := second.undivided.join second.bracesMatch isElse (follows_cons .elseWord _)
      exact (first.undivided.group first.bracesMatch isBehind).cons (fun _ => rfl) (by simp)
  | .fn parameters inner =>
      exact ((Undivided.names parameters).group (.names parameters) inner.undivided).cons
        (fun _ => rfl) (by simp)

theorem IsArguments.undivided {kinds : List Kind} {arguments : List Expr}
    (areArguments : IsArguments kinds arguments) : Undivided 0 kinds := by
  match areArguments with
  | .none => exact .nil
  | .some isFirst areOthers =>
      exact isFirst.undivided.join isFirst.bracesMatch areOthers.undivided areOthers.follows

theorem IsMoreArguments.undivided {kinds : List Kind} {arguments : List Expr}
    (areArguments : IsMoreArguments kinds arguments) : Undivided 0 kinds := by
  match areArguments with
  | .none => exact .nil
  | .some isFirst areOthers =>
      exact (isFirst.undivided.join isFirst.bracesMatch areOthers.undivided areOthers.follows).cons
        (fun _ => rfl) (by simp)

end

theorem IsStmt.undivided {kinds : List Kind} {stmt : Stmt} (isStmt : IsStmt kinds stmt) :
    Undivided 0 kinds := by
  cases isStmt with
  | letBind name inner =>
      exact ((inner.undivided.cons (fun _ => rfl) (by simp)).cons (fun _ => rfl) (by simp)).cons
        (fun _ => rfl) (by simp)
  | ret inner => exact inner.undivided.cons (fun _ => rfl) (by simp)
  | expr inner => exact inner.undivided

/-- One statement with a semicolon behind it has no other one outside of its blocks. -/
theorem IsProgram.undivided {kinds : List Kind} {stmt : Stmt}
    (isProgram : IsProgram (kinds ++ [.symbol .semicolon]) [stmt]) : Undivided 0 kinds := by
  have matched := isProgram.bracesMatch
  generalize isAll : kinds ++ [.symbol .semicolon] = all at isProgram
  cases isProgram with
  | ended isFirst areOthers =>
      cases areOthers
      obtain ⟨rfl, -⟩ := List.append_inj' isAll rfl
      exact isFirst.undivided
  | unended isFirst areOthers _ =>
      cases areOthers
      rw [List.append_nil] at isAll
      subst isAll
      have outside := matched 0
      rw [List.foldl_append] at outside
      exact absurd outside isFirst.undivided.not_semicolon

/-- The same from some place in the statement on, where so many braces are open as the tokens before
it have opened. At its semicolon none is. -/
theorem IsProgram.undivided_behind {before inner : List Kind} {stmt : Stmt}
    (isProgram : IsProgram (before ++ (inner ++ [.symbol .semicolon])) [stmt]) :
    Undivided (before.foldl Tape.depthAfter 0) inner ∧
      inner.foldl Tape.depthAfter (before.foldl Tape.depthAfter 0) = 0 := by
  have matched := isProgram.bracesMatch 0
  rw [← List.append_assoc] at isProgram
  rw [List.foldl_append, List.foldl_append] at matched
  exact ⟨isProgram.undivided.behind, matched⟩

end Monkey.Grammar
