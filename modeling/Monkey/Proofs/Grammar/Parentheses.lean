/-
# Parentheses in programs

Parentheses come in pairs in everything that the grammar derives, so the one that closes
a group can be found by counting alone. Where a conditional begins, a group comes next,
and behind the parenthesis that closes it comes the brace that opens the first block.
This can be checked on the tokens without knowing which program they are.
-/

import Monkey.Proofs.Grammar.Basic

namespace Monkey.Grammar

/-- What stands behind the parenthesis that closes one group more than the given number of
groups that are opened further on. -/
def behindClosing : Nat → List Kind → Option (List Kind)
  | _, [] => none
  | depth, .symbol .leftParen :: rest => behindClosing (depth + 1) rest
  | 0, .symbol .rightParen :: rest => some rest
  | depth + 1, .symbol .rightParen :: rest => behindClosing depth rest
  | depth, _ :: rest => behindClosing depth rest

/-- The parentheses come in pairs, so that counting is the same behind the tokens. -/
def Balanced (kinds : List Kind) : Prop :=
  ∀ depth rest, behindClosing depth (kinds ++ rest) = behindClosing depth rest

/-- A group comes next, and a block behind it. -/
def GroupNext (kinds : List Kind) : Prop :=
  ∃ inner after, kinds = .symbol .leftParen :: inner ∧
    behindClosing 0 inner = some (.symbol .leftBrace :: after)

/-- Behind every token that begins a conditional comes a group and then a block, if the tokens
are followed by the given ones. -/
def Guarded (more : List Kind) : List Kind → Prop
  | [] => True
  | kind :: rest => (kind = .keyword .ifWord → GroupNext (rest ++ more)) ∧ Guarded more rest

theorem guarded_append {more first second : List Kind} :
    Guarded more (first ++ second) ↔ Guarded (second ++ more) first ∧ Guarded more second := by
  induction first with
  | nil => simp [Guarded]
  | cons kind first ih => simp [Guarded, ih, and_assoc]

namespace Balanced

theorem nil : Balanced [] := fun _ _ => rfl

theorem append {first second : List Kind} (isFirst : Balanced first) (isSecond : Balanced second) :
    Balanced (first ++ second) := by
  intro depth rest
  rw [List.append_assoc, isFirst, isSecond]

theorem group {kinds : List Kind} (balanced : Balanced kinds) :
    Balanced (.symbol .leftParen :: (kinds ++ [.symbol .rightParen])) := by
  intro depth rest
  show behindClosing (depth + 1) (kinds ++ [.symbol .rightParen] ++ rest) = _
  rw [List.append_assoc, balanced]
  rfl

/-- The parenthesis that closes a group is the one behind what is inside. -/
theorem behindClosing_eq {kinds : List Kind} (balanced : Balanced kinds) (rest : List Kind) :
    behindClosing 0 (kinds ++ .symbol .rightParen :: rest) = some rest := by
  rw [balanced]
  rfl

end Balanced

/-- A token that is no parenthesis and begins no conditional. -/
def Plain : Kind → Prop
  | .symbol .leftParen => False
  | .symbol .rightParen => False
  | .keyword .ifWord => False
  | _ => True

theorem plain_prefixOp (op : PrefixOp) : Plain (.symbol op.symbol) := by
  cases op <;> trivial

theorem plain_infixOp (op : InfixOp) : Plain (.symbol op.symbol) := by
  cases op <;> trivial

theorem Plain.balanced {kind : Kind} (plain : Plain kind) : Balanced [kind] := by
  intro depth rest
  cases kind with
  | symbol spelled => cases spelled <;> first | exact plain.elim | (cases depth <;> rfl)
  | _ => cases depth <;> rfl

theorem Balanced.cons {kind : Kind} {kinds : List Kind} (plain : Plain kind)
    (balanced : Balanced kinds) : Balanced (kind :: kinds) :=
  plain.balanced.append balanced

theorem balanced_if : Balanced [.keyword .ifWord] := by
  intro depth rest
  cases depth <;> rfl

/-- Tokens in which parentheses come in pairs and conditionals have their groups, whatever
follows them. -/
structure Orderly (kinds : List Kind) : Prop where
  balanced : Balanced kinds
  guarded : ∀ more, Guarded more kinds

namespace Orderly

theorem nil : Orderly [] := ⟨.nil, fun _ => trivial⟩

theorem append {first second : List Kind} (isFirst : Orderly first) (isSecond : Orderly second) :
    Orderly (first ++ second) where
  balanced := isFirst.balanced.append isSecond.balanced
  guarded more := guarded_append.mpr ⟨isFirst.guarded _, isSecond.guarded more⟩

/-- A token that is no parenthesis and begins no conditional can stand anywhere. -/
theorem cons {kind : Kind} {kinds : List Kind} (plain : Plain kind) (orderly : Orderly kinds) :
    Orderly (kind :: kinds) where
  balanced := .cons plain orderly.balanced
  guarded more := by
    refine ⟨?_, orderly.guarded more⟩
    rintro rfl
    exact plain.elim

theorem single {kind : Kind} (plain : Plain kind) : Orderly [kind] := nil.cons plain

theorem group {kinds : List Kind} (orderly : Orderly kinds) :
    Orderly (.symbol .leftParen :: (kinds ++ [.symbol .rightParen])) where
  balanced := orderly.balanced.group
  guarded more := by
    refine ⟨by simp, guarded_append.mpr ⟨orderly.guarded _, ?_⟩⟩
    exact ⟨by simp, trivial⟩

/-- A group in front of other tokens. -/
theorem groupAppend {kinds others : List Kind} (orderly : Orderly kinds)
    (isOthers : Orderly others) :
    Orderly (.symbol .leftParen :: (kinds ++ .symbol .rightParen :: others)) := by
  have both := orderly.group.append isOthers
  rwa [List.cons_append, List.append_assoc] at both

/-- Tokens between braces. -/
theorem braces {kinds : List Kind} (orderly : Orderly kinds) :
    Orderly (.symbol .leftBrace :: (kinds ++ [.symbol .rightBrace])) :=
  (orderly.append (.single (by trivial))).cons (by trivial)

/-- A conditional, up to the first block or further. -/
theorem conditional {kinds blockKinds : List Kind} (orderly : Orderly kinds)
    (isBlock : Orderly blockKinds) (begins : ∃ inner, blockKinds = .symbol .leftBrace :: inner) :
    Orderly (.keyword .ifWord :: .symbol .leftParen ::
      (kinds ++ .symbol .rightParen :: blockKinds)) := by
  obtain ⟨inner, rfl⟩ := begins
  have behind := orderly.groupAppend isBlock
  refine ⟨balanced_if.append behind.balanced, fun more => ⟨fun _ => ?_, behind.guarded more⟩⟩
  refine ⟨_, inner ++ more, rfl, ?_⟩
  rw [List.append_eq, List.append_assoc]
  exact orderly.balanced.behindClosing_eq _

theorem moreNames (bound : List String) : Orderly (moreNames bound) := by
  induction bound with
  | nil => exact .nil
  | cons name bound ih => exact (ih.cons (by trivial)).cons (by trivial)

theorem names (bound : List String) : Orderly (names bound) := by
  cases bound with
  | nil => exact .nil
  | cons name bound => exact (moreNames bound).cons trivial

end Orderly

/-! ## Derivations -/

theorem IsBlock.exists_brace {kinds : List Kind} {stmts : Block} (isBlock : IsBlock kinds stmts) :
    ∃ inner, kinds = .symbol .leftBrace :: inner := by
  cases isBlock
  exact ⟨_, rfl⟩

mutual

theorem IsExpr.orderly {stratum : Stratum} {kinds : List Kind} {expr : Expr}
    (isExpr : IsExpr stratum kinds expr) : Orderly kinds := by
  match isExpr with
  | .tighter inner => exact inner.orderly
  | @IsExpr.infixOp op _ _ _ _ first second =>
      exact first.orderly.append (second.orderly.cons (plain_infixOp op))
  | .prefixOp op inner => exact inner.orderly.cons (plain_prefixOp op)
  | .call first given => exact first.orderly.append given.orderly.group
  | .ident _ => exact .single trivial
  | .int _ _ => exact .single trivial
  | .trueWord => exact .single trivial
  | .falseWord => exact .single trivial
  | .group inner => exact inner.orderly.group
  | .ifThen first second => exact first.orderly.conditional second.orderly second.exists_brace
  | .ifThenElse first second third =>
      refine first.orderly.conditional
        (second.orderly.append (third.orderly.cons trivial)) ?_
      obtain ⟨inner, rfl⟩ := second.exists_brace
      exact ⟨_, rfl⟩
  | .fn parameters inner =>
      exact ((Orderly.names parameters).groupAppend inner.orderly).cons trivial

theorem IsArguments.orderly {kinds : List Kind} {arguments : List Expr}
    (areArguments : IsArguments kinds arguments) : Orderly kinds := by
  match areArguments with
  | .none => exact .nil
  | .some isFirst areOthers => exact isFirst.orderly.append areOthers.orderly

theorem IsMoreArguments.orderly {kinds : List Kind} {arguments : List Expr}
    (areArguments : IsMoreArguments kinds arguments) : Orderly kinds := by
  match areArguments with
  | .none => exact .nil
  | .some isFirst areOthers => exact (isFirst.orderly.append areOthers.orderly).cons trivial

theorem IsBlock.orderly {kinds : List Kind} {stmts : Block} (isBlock : IsBlock kinds stmts) :
    Orderly kinds := by
  match isBlock with
  | .braces inner => exact inner.orderly.braces

theorem IsStmt.orderly {kinds : List Kind} {stmt : Stmt} (isStmt : IsStmt kinds stmt) :
    Orderly kinds := by
  match isStmt with
  | .letBind _ inner => exact ((inner.orderly.cons (by trivial)).cons (by trivial)).cons (by trivial)
  | .ret inner => exact inner.orderly.cons trivial
  | .expr inner => exact inner.orderly

/-- Conditionals in a program have their conditions in parentheses. -/
theorem IsProgram.orderly {kinds : List Kind} {stmts : Program}
    (isProgram : IsProgram kinds stmts) : Orderly kinds := by
  match isProgram with
  | .nil => exact .nil
  | .ended isFirst areOthers => exact isFirst.orderly.append (areOthers.orderly.cons trivial)
  | .unended isFirst areOthers _ => exact isFirst.orderly.append areOthers.orderly

end

end Monkey.Grammar
