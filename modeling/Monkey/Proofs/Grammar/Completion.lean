/-
# Completing what has been read

Tokens that begin something in the grammar can be completed. The parts that are finished are in
the grammar already. Of the one that is not, each construct knows what closes it, whatever stands
inside: a name where an operand is missing, and then the parentheses and braces that are open. So
a completion never needs more than symbols and one name.
-/

import Monkey.Proofs.Grammar.Strata

namespace Monkey

namespace Grammar

/-- What completions are made of: symbols, and one name for every place that needs an operand
or a name. -/
def Fills : Kind → Prop
  | .symbol _ => True
  | .ident name => name = "x"
  | _ => False

/-- The tokens can be completed to what is asked for. -/
def Completable (goal : List Kind → Prop) (kinds : List Kind) : Prop :=
  ∃ more, (∀ kind ∈ more, Fills kind) ∧ goal (kinds ++ more)

/-- The tokens are an expression of the stratum. -/
def IsSomeExpr (stratum : Stratum) (kinds : List Kind) : Prop :=
  ∃ expr, IsExpr stratum kinds expr

/-- The tokens are statements. -/
def IsSomeProgram (kinds : List Kind) : Prop := ∃ program, IsProgram kinds program

/-- The block without any statements. -/
theorem IsBlock.empty : IsBlock [.symbol .leftBrace, .symbol .rightBrace] [] := .braces .nil

namespace IsSomeExpr

variable {kinds blockKinds otherKinds : List Kind} {condition : Expr}
  {consequence alternative : Block}

theorem group {expr : Expr} (isInner : IsExpr .equality kinds expr) :
    IsSomeExpr .unary (.symbol .leftParen :: (kinds ++ [.symbol .rightParen])) :=
  ⟨expr, (IsExpr.group isInner).ofPrimary .unary⟩

theorem ifThen (isCondition : IsExpr .equality kinds condition)
    (isConsequence : IsBlock blockKinds consequence) :
    IsSomeExpr .unary
      (.keyword .ifWord :: .symbol .leftParen :: (kinds ++ .symbol .rightParen :: blockKinds)) :=
  ⟨_, (IsExpr.ifThen isCondition isConsequence).ofPrimary .unary⟩

theorem ifThenElse (isCondition : IsExpr .equality kinds condition)
    (isConsequence : IsBlock blockKinds consequence)
    (isAlternative : IsBlock otherKinds alternative) :
    IsSomeExpr .unary
      (.keyword .ifWord :: .symbol .leftParen ::
        (kinds ++ .symbol .rightParen :: (blockKinds ++ .keyword .elseWord :: otherKinds))) :=
  ⟨_, (IsExpr.ifThenElse isCondition isConsequence isAlternative).ofPrimary .unary⟩

theorem fn (parameters : List String) {body : Block} (isBody : IsBlock kinds body) :
    IsSomeExpr .unary
      (.keyword .function :: .symbol .leftParen ::
        (names parameters ++ .symbol .rightParen :: kinds)) :=
  ⟨_, (IsExpr.fn parameters isBody).ofPrimary .unary⟩

end IsSomeExpr

namespace Completable

variable {goal inner : List Kind → Prop} {kinds : List Kind}

/-- What is complete needs no more tokens. -/
theorem done (isGoal : goal kinds) : Completable goal kinds :=
  ⟨[], by simp, by rwa [List.append_nil]⟩

/-- What can be completed behind more tokens can be completed with them. -/
theorem close (more : List Kind) (fill : ∀ kind ∈ more, Fills kind)
    (completable : Completable goal (kinds ++ more)) : Completable goal kinds := by
  obtain ⟨others, fillOthers, isGoal⟩ := completable
  refine ⟨more ++ others, List.forall_mem_append.mpr ⟨fill, fillOthers⟩, ?_⟩
  rwa [← List.append_assoc]

/-- What is complete inside something open can be completed further. -/
theorem bind (completable : Completable inner kinds)
    (closing : ∀ kinds, inner kinds → Completable goal kinds) : Completable goal kinds := by
  obtain ⟨more, fill, isInner⟩ := completable
  exact .close more fill (closing _ isInner)

/-- Completing what stands behind other tokens completes the whole. -/
theorem behind (before : List Kind)
    (completable : Completable (fun more => goal (before ++ more)) kinds) :
    Completable goal (before ++ kinds) := by
  obtain ⟨more, fill, isGoal⟩ := completable
  exact ⟨more, fill, by rwa [List.append_assoc]⟩

end Completable

theorem IsStmt.isSomeProgram {kinds : List Kind} {stmt : Stmt} (isStmt : IsStmt kinds stmt) :
    IsSomeProgram kinds := by
  have isProgram := IsProgram.unended isStmt .nil (by simp)
  rw [List.append_nil] at isProgram
  exact ⟨_, isProgram⟩

/-- The tokens are a statement with its semicolon, or without one before a token that does
not belong to it. -/
def IsEnded (kinds : List Kind) (stmt : Stmt) (next : Kind) : Prop :=
  ∃ inner, IsStmt inner stmt ∧
    (kinds = inner ++ [.symbol .semicolon] ∨ kinds = inner ∧ ¬ Continues next)

namespace IsEnded

variable {kinds more : List Kind} {first : Stmt} {others : Program} {next : Kind}

/-- A statement in front of others. -/
theorem cons (isFirst : IsEnded kinds first next) (areOthers : IsProgram more others)
    (isNext : ∀ kind ∈ more.head?, next = kind) : IsProgram (kinds ++ more) (first :: others) := by
  obtain ⟨inner, isStmt, rfl | ⟨rfl, notContinues⟩⟩ := isFirst
  · rw [List.append_assoc, List.singleton_append]
    exact .ended isStmt areOthers
  · exact .unended isStmt areOthers fun kind isHead => isNext kind isHead ▸ notContinues

/-- Behind a statement, what has been passed is completed to more statements. If that is nothing
at all, it stays so, since a completion could carry the statement on. -/
theorem completable (isFirst : IsEnded kinds first next) (isNext : ∀ kind ∈ more.head?, next = kind)
    (completable : Completable IsSomeProgram more) :
    Completable (fun more => IsSomeProgram (kinds ++ more)) more := by
  cases more with
  | nil => exact .done ⟨_, isFirst.cons .nil (by simp)⟩
  | cons kind others =>
      obtain ⟨fills, fill, _, areOthers⟩ := completable
      exact ⟨fills, fill, _, isFirst.cons areOthers isNext⟩

end IsEnded

end Grammar

end Monkey
