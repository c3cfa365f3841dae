/-
# Levels and strata

Reading compares levels while the grammar has strata. The two meet in one fact: a level
lets a continuation through exactly if its stratum is no tighter than that of the
continuation.
-/

import Monkey.Proofs.Grammar.Basic
import Monkey.Proofs.Parse.Steps

namespace Monkey

open Grammar

/-- The strata in order, the loosest first. -/
def Grammar.Stratum.rank : Stratum → Nat
  | equality => 0
  | relational => 1
  | additive => 2
  | multiplicative => 3
  | unary => 4
  | call => 5
  | primary => 6

/-- An expression of a tight stratum is one of each looser stratum. -/
theorem Grammar.IsExpr.loosen {loose tight : Stratum} {kinds : List Kind} {expr : Expr}
    (isExpr : IsExpr tight kinds expr) (looser : loose.rank ≤ tight.rank) :
    IsExpr loose kinds expr := by
  have climb (steps : Nat) (loose : Stratum) (near : tight.rank - loose.rank ≤ steps)
      (looser : loose.rank ≤ tight.rank) : IsExpr loose kinds expr := by
    induction steps generalizing loose with
    | zero =>
        have same : loose = tight := by
          cases loose <;> cases tight <;> first | rfl | simp [Stratum.rank] at near looser
        exact same ▸ isExpr
    | succ steps ih =>
        by_cases same : loose = tight
        · exact same ▸ isExpr
        · have next : loose.tighter.rank ≤ tight.rank ∧
              tight.rank - loose.tighter.rank ≤ steps := by
            cases loose <;> cases tight <;>
              simp [Stratum.tighter, Stratum.rank] at same near looser ⊢ <;> omega
          exact .tighter (ih loose.tighter next.2 next.1)
  exact climb _ loose (Nat.le_refl _) looser

/-- What stands by itself is an expression of every stratum. -/
theorem Grammar.IsExpr.ofPrimary {kinds : List Kind} {expr : Expr}
    (isExpr : IsExpr .primary kinds expr) (stratum : Stratum) : IsExpr stratum kinds expr := by
  apply isExpr.loosen
  cases stratum <;> decide

/-- The stratum that an operand of a continuation is in. -/
def Continuation.stratum : Continuation → Stratum
  | operator op => Grammar.stratum op
  | call => .call

/-- The stratum of expressions inside a construct of the level. -/
def Level.stratum : Level → Stratum
  | lowest => .equality
  | equality => .relational
  | comparison => .additive
  | sum => .multiplicative
  | product => .unary
  | prefixOp => .unary
  | call => .primary

/-- A level lets a continuation through if its stratum is no tighter. -/
theorem Level.rank_lt_iff (level : Level) (continuation : Continuation) :
    level.rank < continuation.level.rank ↔ level.stratum.rank ≤ continuation.stratum.rank := by
  cases continuation with
  | operator op => cases level <;> cases op <;> decide
  | call => cases level <;> decide

theorem InfixOp.stratum_level (op : InfixOp) : op.level.stratum = (Grammar.stratum op).tighter := by
  cases op <;> rfl

theorem InfixOp.level_ne_call (op : InfixOp) : op.level ≠ .call := by
  cases op <;> decide

/-- The kind of token that begins an operand in this way. -/
def Start.kind? : Start → Option Kind
  | ident name => some (.ident name)
  | int digits => some (.int digits)
  | bool true => some (.keyword .trueWord)
  | bool false => some (.keyword .falseWord)
  | prefixOp op => some (.symbol op.symbol)
  | group => some (.symbol .leftParen)
  | conditional => some (.keyword .ifWord)
  | function => some (.keyword .function)
  | illegal => none
  | nothing => none

namespace Kind

theorem continuation?_eq_operator {kind : Kind} {op : InfixOp} :
    kind.continuation? = some (.operator op) ↔ kind = .symbol op.symbol := by
  constructor
  · intro isOperator
    unfold continuation? at isOperator
    split at isOperator
    · cases isOperator
    · next spelled _ =>
        cases spelled <;> simp [Symbol.infixOp?] at isOperator <;> subst isOperator <;> rfl
    · cases isOperator
  · rintro rfl
    cases op <;> rfl

theorem continuation?_eq_call {kind : Kind} :
    kind.continuation? = some .call ↔ kind = .symbol .leftParen := by
  constructor
  · intro isCall
    unfold continuation? at isCall
    split at isCall
    · rfl
    · next spelled _ => cases spelled <;> simp [Symbol.infixOp?] at isCall
    · cases isCall
  · rintro rfl
    rfl

theorem continuation?_eq_none {kind : Kind} :
    kind.continuation? = none ↔ ¬ Continues kind := by
  constructor
  · rintro isNone (op | -)
    · rw [continuation?_eq_operator.mpr rfl] at isNone
      cases isNone
    · cases isNone
  · intro notContinues
    cases isSome : kind.continuation? with
    | none => rfl
    | some continuation =>
        cases continuation with
        | operator op =>
            rw [continuation?_eq_operator.mp isSome] at notContinues
            exact absurd (.operator op) notContinues
        | call =>
            rw [continuation?_eq_call.mp isSome] at notContinues
            exact absurd .call notContinues

/-- A token ends an expression inside a level if it begins nothing, or something looser than
that level asks for. -/
theorem continuationAbove?_eq_none {kind : Kind} {level : Level} :
    kind.continuationAbove? level = none ↔
      ∀ continuation, kind.continuation? = some continuation →
        continuation.stratum.rank < level.stratum.rank := by
  rw [continuationAbove?, Option.filter_eq_none_iff]
  refine forall_congr' fun continuation => imp_congr_right fun _ => ?_
  rw [decide_eq_true_iff, level.rank_lt_iff, Nat.not_le]

/-- A continuation is let through from its own stratum on. -/
theorem continuationAbove?_of_rank {kind : Kind} {level : Level} {continuation : Continuation}
    (isNext : kind.continuation? = some continuation)
    (inside : level.stratum.rank ≤ continuation.stratum.rank) :
    kind.continuationAbove? level = some continuation := by
  rw [continuationAbove?, isNext]
  exact Option.filter_some_pos (decide_eq_true ((level.rank_lt_iff continuation).mpr inside))

/-- Outside of every construct, only what continues nothing ends an expression. -/
theorem continuationAbove?_lowest {kind : Kind} :
    kind.continuationAbove? .lowest = none ↔ ¬ Continues kind := by
  rw [continuationAbove?_eq_none, ← continuation?_eq_none, Option.eq_none_iff_forall_ne_some]
  exact forall_congr' fun continuation => forall_congr' fun _ => iff_of_false (Nat.not_lt_zero _) id

/-- What an operand begins with tells the kind of its first token. -/
theorem eq_of_start {kind first : Kind} {start : Start} (isStart : kind.start = start)
    (isFirst : start.kind? = some first) : kind = first := by
  subst isStart
  unfold start at isFirst
  split at isFirst <;> cases isFirst <;> rfl

end Kind

section

variable {kinds : List Kind} {expr : Expr}

/-- Behind the right operand of an operator comes nothing tighter, so whatever continues there
has the whole as its operand. -/
theorem Grammar.IsExpr.fits_of_operator {op : InfixOp} {next : Kind}
    (isExpr : IsExpr (Grammar.stratum op) kinds expr)
    (ends : next.continuationAbove? op.level = none) (continuation : Continuation)
    (isNext : next.continuation? = some continuation) : IsExpr continuation.stratum kinds expr := by
  apply isExpr.loosen
  have looser := Kind.continuationAbove?_eq_none.mp ends _ isNext
  rw [op.stratum_level] at looser
  cases op <;> exact Nat.le_of_lt_succ looser

/-- Nothing that continues an expression binds more tightly than a call. -/
theorem Grammar.IsExpr.fits_of_call (isExpr : IsExpr .call kinds expr)
    (continuation : Continuation) : IsExpr continuation.stratum kinds expr := by
  apply isExpr.loosen
  cases continuation with
  | operator op => cases op <;> decide
  | call => decide

end

end Monkey
