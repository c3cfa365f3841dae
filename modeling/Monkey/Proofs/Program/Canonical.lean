/-
# The tokens of the canonical form

The canonical form puts operations in parentheses and nothing else, so a conditional has
the parentheses that the grammar asks for exactly if its condition is an operation. If
all conditions are operations, the tokens of the canonical form are a program, and it is
the one that was written. If some condition is not, they are no program at all: either no
group comes behind the word, or the group is the callee of a call.
-/

import Monkey.Program.Render
import Monkey.Proofs.Grammar.Parentheses
import Monkey.Proofs.Grammar.Strata

namespace Monkey

open Grammar

/-! ## Trees -/

mutual

/-- Something holds of all expressions in a tree, and something of all names. -/
def Expr.Every (onExpr : Expr → Prop) (onName : String → Prop) : Expr → Prop
  | .ident name => onExpr (.ident name) ∧ onName name
  | .int value => onExpr (.int value)
  | .bool value => onExpr (.bool value)
  | .prefixOp op operand => onExpr (.prefixOp op operand) ∧ operand.Every onExpr onName
  | .infixOp op left right =>
    onExpr (.infixOp op left right) ∧ left.Every onExpr onName ∧ right.Every onExpr onName
  | .ifElse condition consequence none =>
    onExpr (.ifElse condition consequence none) ∧ condition.Every onExpr onName ∧
      Stmt.EveryOf onExpr onName consequence
  | .ifElse condition consequence (some alternative) =>
    onExpr (.ifElse condition consequence (some alternative)) ∧ condition.Every onExpr onName ∧
      Stmt.EveryOf onExpr onName consequence ∧ Stmt.EveryOf onExpr onName alternative
  | .fn parameters body =>
    onExpr (.fn parameters body) ∧ (∀ name ∈ parameters, onName name) ∧
      Stmt.EveryOf onExpr onName body
  | .call callee arguments =>
    onExpr (.call callee arguments) ∧ callee.Every onExpr onName ∧
      Expr.EveryOf onExpr onName arguments
  termination_by structural expr => expr

/-- The same for the expressions and names in a statement. -/
def Stmt.Every (onExpr : Expr → Prop) (onName : String → Prop) : Stmt → Prop
  | .letBind name value => onName name ∧ value.Every onExpr onName
  | .ret value => value.Every onExpr onName
  | .expr value => value.Every onExpr onName
  termination_by structural stmt => stmt

/-- The same for several statements. -/
def Stmt.EveryOf (onExpr : Expr → Prop) (onName : String → Prop) : List Stmt → Prop
  | [] => True
  | stmt :: stmts => stmt.Every onExpr onName ∧ Stmt.EveryOf onExpr onName stmts
  termination_by structural stmts => stmts

/-- The same for several expressions. -/
def Expr.EveryOf (onExpr : Expr → Prop) (onName : String → Prop) : List Expr → Prop
  | [] => True
  | expr :: exprs => expr.Every onExpr onName ∧ Expr.EveryOf onExpr onName exprs
  termination_by structural exprs => exprs

end

/-- The operations are what stands in parentheses of its own. -/
def Expr.IsOperation : Expr → Prop
  | .prefixOp _ _ => True
  | .infixOp _ _ _ => True
  | _ => False

/-- An integer, if it is one, that digits alone can denote. -/
def Expr.IsSpellable : Expr → Prop
  | .int value => 0 ≤ value.toInt
  | _ => True

/-- A conditional, if it is one, whose condition is an operation. -/
def Expr.HasOperation : Expr → Prop
  | .ifElse condition _ _ => condition.IsOperation
  | _ => True

/-- Names that are read as one identifier. -/
def IsIdentifier (name : String) : Prop :=
  (Cursor.ofText name).words.map Token.kind = [.ident name]

/-- Every name in the program is an identifier, and every integer can be written in digits. -/
def Program.WellFormed (program : Program) : Prop :=
  Stmt.EveryOf Expr.IsSpellable IsIdentifier program

/-- The condition of every conditional in the program, however deep, is an operation. -/
def Program.ConditionsAreOperations (program : Program) : Prop :=
  Stmt.EveryOf Expr.HasOperation (fun _ => True) program

/-! ## Tokens -/

/-- Tokens between parentheses. -/
def groupKinds (kinds : List Kind) : List Kind :=
  .symbol .leftParen :: (kinds ++ [.symbol .rightParen])

/-- The tokens of statements between braces. -/
def blockKinds (statements : List (List Kind)) : List Kind :=
  .symbol .leftBrace :: (statements.flatten ++ [.symbol .rightBrace])

mutual

/-- The tokens of the canonical form of an expression. -/
def Expr.kinds : Expr → List Kind
  | .ident name => [.ident name]
  | .int value => [.int (intText value)]
  | .bool true => [.keyword .trueWord]
  | .bool false => [.keyword .falseWord]
  | .prefixOp op operand => groupKinds (.symbol op.symbol :: operand.kinds)
  | .infixOp op left right => groupKinds (left.kinds ++ .symbol op.symbol :: right.kinds)
  | .ifElse condition consequence none =>
    .keyword .ifWord :: (condition.kinds ++ blockKinds (Stmt.kindsList consequence))
  | .ifElse condition consequence (some alternative) =>
    .keyword .ifWord :: (condition.kinds ++ (blockKinds (Stmt.kindsList consequence) ++
      .keyword .elseWord :: blockKinds (Stmt.kindsList alternative)))
  | .fn parameters body =>
    .keyword .function :: (groupKinds (names parameters) ++ blockKinds (Stmt.kindsList body))
  | .call callee arguments =>
    callee.kinds ++ groupKinds (List.intercalate [.symbol .comma] (Expr.kindsList arguments))
  termination_by structural expr => expr

/-- The tokens of the canonical form of a statement, its semicolon included. -/
def Stmt.kinds : Stmt → List Kind
  | .letBind name value =>
    .keyword .letWord :: .ident name :: .symbol .assign :: (value.kinds ++ [.symbol .semicolon])
  | .ret value => .keyword .returnWord :: (value.kinds ++ [.symbol .semicolon])
  | .expr value => value.kinds ++ [.symbol .semicolon]
  termination_by structural stmt => stmt

/-- The tokens of statements, in order. -/
def Stmt.kindsList : List Stmt → List (List Kind)
  | [] => []
  | stmt :: stmts => stmt.kinds :: Stmt.kindsList stmts
  termination_by structural stmts => stmts

/-- The tokens of expressions, in order. -/
def Expr.kindsList : List Expr → List (List Kind)
  | [] => []
  | expr :: exprs => expr.kinds :: Expr.kindsList exprs
  termination_by structural exprs => exprs

end

/-- The tokens of the canonical form of a program. -/
def Program.kinds (program : Program) : List Kind := (Stmt.kindsList program).flatten

/-- Behind the first list, each of the others has the separator before it. -/
theorem intercalate_cons {α : Type} (separator first : List α) (others : List (List α)) :
    List.intercalate separator (first :: others) =
      first ++ others.flatMap fun list => separator ++ list := by
  induction others generalizing first with
  | nil => simp
  | cons second others ih => simp [List.intercalate_cons_cons, ih]

/-! ## What was written is derived -/

/-- Integers that are not negative are written in digits alone. -/
theorem toList_intText {value : Int64} (nonneg : 0 ≤ value.toInt) :
    (intText value).toList = Nat.toDigits 10 value.toInt.toNat := by
  obtain ⟨n, isNat⟩ := Int.eq_ofNat_of_zero_le nonneg
  rw [intText, isNat]
  show (Nat.repr n).toList = _
  rw [Nat.repr_eq_ofList_toDigits, String.toList_ofList]
  rfl

theorem intText_of_nonneg {value : Int64} (nonneg : 0 ≤ value.toInt) :
    intText value = String.ofList (Nat.toDigits 10 value.toInt.toNat) := by
  rw [← toList_intText nonneg, String.ofList_toList]

/-- Before a negative integer stands a minus sign, and then its absolute value. -/
theorem toList_intText_of_neg {value : Int64} (negative : value.toInt < 0) :
    (intText value).toList = '-' :: Nat.toDigits 10 value.toInt.natAbs := by
  obtain ⟨n, isNat⟩ := Int.eq_negSucc_of_lt_zero negative
  rw [intText, isNat]
  show ("-" ++ Nat.repr (n + 1)).toList = _
  rw [Nat.repr_eq_ofList_toDigits, String.toList_append, String.toList_ofList, String.toList_ofList]
  rfl

theorem Grammar.number_digits (n : Nat) : number (String.ofList (Nat.toDigits 10 n)) = n := by
  rw [number, String.toList_ofList, Nat.ofDigitChars_toDigits (by decide) (by decide)]

theorem Int64.ofNat_toNat {value : Int64} (nonneg : 0 ≤ value.toInt) :
    Int64.ofNat value.toInt.toNat = value := by
  rw [← Int64.ofInt_eq_ofNat, Int.toNat_of_nonneg nonneg, Int64.ofInt_toInt]

/-- The digits that an integer is written in denote it. -/
theorem Grammar.IsExpr.ofIntText {value : Int64} (nonneg : 0 ≤ value.toInt) :
    IsExpr .primary [.int (intText value)] (.int value) := by
  have isNumber : number (intText value) = value.toInt.toNat := by
    rw [intText_of_nonneg nonneg, number_digits]
  have fits : number (intText value) ≤ Nat.pow 2 63 - 1 := by
    have small : value.toInt < 2 ^ 63 := value.toInt_lt
    show _ ≤ 2 ^ 63 - 1
    omega
  have isExpr := IsExpr.int (intText value) fits
  rwa [isNumber, Int64.ofNat_toNat nonneg] at isExpr

/-- An expression is derived from its tokens, and an operation from what is between its
parentheses as well. -/
structure Expr.Derived (expr : Expr) : Prop where
  isExpr : IsExpr .call expr.kinds expr
  inside : expr.IsOperation → ∃ inner, expr.kinds = groupKinds inner ∧ IsExpr .equality inner expr

namespace Expr.Derived

theorem isLoose {expr : Expr} (derived : expr.Derived) (stratum : Stratum)
    (looser : stratum.rank ≤ Stratum.call.rank) : IsExpr stratum expr.kinds expr :=
  derived.isExpr.loosen looser

theorem ofPrimary {expr : Expr} (isExpr : IsExpr .primary expr.kinds expr)
    (noOperation : ¬ expr.IsOperation) : expr.Derived :=
  ⟨isExpr.ofPrimary _, fun operation => absurd operation noOperation⟩

theorem ofOperation {expr : Expr} {inner : List Kind} (isGroup : expr.kinds = groupKinds inner)
    (isExpr : IsExpr .equality inner expr) : expr.Derived := by
  refine ⟨?_, fun _ => ⟨inner, isGroup, isExpr⟩⟩
  rw [isGroup]
  exact (IsExpr.group isExpr).ofPrimary _

end Expr.Derived

/-- Arguments in their canonical form, all but the first with the comma before them. -/
theorem isMoreArguments_kinds {exprs : List Expr} (derived : ∀ expr ∈ exprs, expr.Derived) :
    IsMoreArguments ((Expr.kindsList exprs).flatMap fun kinds => .symbol .comma :: kinds) exprs := by
  induction exprs with
  | nil => exact .none
  | cons expr exprs ih =>
      obtain ⟨isFirst, areOthers⟩ := List.forall_mem_cons.mp derived
      exact .some (isFirst.isLoose .equality (by decide)) (ih areOthers)

theorem isArguments_kinds {exprs : List Expr} (derived : ∀ expr ∈ exprs, expr.Derived) :
    IsArguments (List.intercalate [.symbol .comma] (Expr.kindsList exprs)) exprs := by
  cases exprs with
  | nil => exact .none
  | cons expr exprs =>
      obtain ⟨isFirst, areOthers⟩ := List.forall_mem_cons.mp derived
      rw [Expr.kindsList, intercalate_cons]
      exact .some (isFirst.isLoose .equality (by decide)) (isMoreArguments_kinds areOthers)

/-- Statements between braces, if they are derived from their tokens. -/
theorem isBlock_kinds {stmts : List Stmt}
    (isProgram : IsProgram (Stmt.kindsList stmts).flatten stmts) :
    IsBlock (blockKinds (Stmt.kindsList stmts)) stmts :=
  .braces isProgram

/-- A statement with its semicolon in front of others. -/
theorem isProgram_kinds {stmt : Stmt} {stmts : List Stmt} {kinds : List Kind}
    (isKinds : stmt.kinds = kinds ++ [.symbol .semicolon]) (isStmt : IsStmt kinds stmt)
    (areOthers : IsProgram (Stmt.kindsList stmts).flatten stmts) :
    IsProgram (Stmt.kindsList (stmt :: stmts)).flatten (stmt :: stmts) := by
  have isProgram := IsProgram.ended isStmt areOthers
  rwa [List.append_cons, ← isKinds] at isProgram

mutual

theorem Expr.derived {onName : String → Prop} (expr : Expr)
    (spellable : expr.Every Expr.IsSpellable onName)
    (operations : expr.Every Expr.HasOperation fun _ => True) : expr.Derived := by
  match expr with
  | .ident name => exact .ofPrimary (.ident name) id
  | .int value => exact .ofPrimary (.ofIntText spellable) id
  | .bool true => exact .ofPrimary .trueWord id
  | .bool false => exact .ofPrimary .falseWord id
  | .prefixOp op operand =>
      have inner := operand.derived spellable.2 operations.2
      exact .ofOperation rfl
        (IsExpr.loosen (.prefixOp op (inner.isLoose .unary (by decide))) (by decide))
  | .infixOp op left right =>
      have first := left.derived spellable.2.1 operations.2.1
      have second := right.derived spellable.2.2 operations.2.2
      refine .ofOperation rfl (IsExpr.loosen (.infixOp (first.isLoose (stratum op) ?_)
        (second.isLoose (stratum op).tighter ?_)) ?_)
      all_goals cases op <;> decide
  | .ifElse condition consequence none =>
      have first := condition.derived spellable.2.1 operations.2.1
      have second := isBlock_kinds
        (Stmt.isProgram_kindsList consequence spellable.2.2 operations.2.2)
      obtain ⟨inner, isGroup, isInner⟩ := first.inside operations.1
      refine .ofPrimary ?_ id
      have isExpr := IsExpr.ifThen isInner second
      rw [Expr.kinds, isGroup]
      simpa [groupKinds] using isExpr
  | .ifElse condition consequence (some alternative) =>
      have first := condition.derived spellable.2.1 operations.2.1
      have second := isBlock_kinds
        (Stmt.isProgram_kindsList consequence spellable.2.2.1 operations.2.2.1)
      have third := isBlock_kinds
        (Stmt.isProgram_kindsList alternative spellable.2.2.2 operations.2.2.2)
      obtain ⟨inner, isGroup, isInner⟩ := first.inside operations.1
      refine .ofPrimary ?_ id
      have isExpr := IsExpr.ifThenElse isInner second third
      rw [Expr.kinds, isGroup]
      simpa [groupKinds] using isExpr
  | .fn parameters body =>
      have inner := isBlock_kinds (Stmt.isProgram_kindsList body spellable.2.2 operations.2.2)
      refine .ofPrimary ?_ id
      have isExpr := IsExpr.fn parameters inner
      simpa [Expr.kinds, groupKinds] using isExpr
  | .call callee arguments =>
      have first := callee.derived spellable.2.1 operations.2.1
      have given := isArguments_kinds
        (Expr.derived_of_mem arguments spellable.2.2 operations.2.2)
      exact ⟨.call first.isExpr given, False.elim⟩

theorem Stmt.isProgram_kindsList {onName : String → Prop} (stmts : List Stmt)
    (spellable : Stmt.EveryOf Expr.IsSpellable onName stmts)
    (operations : Stmt.EveryOf Expr.HasOperation (fun _ => True) stmts) :
    IsProgram (Stmt.kindsList stmts).flatten stmts := by
  match stmts with
  | [] => exact .nil
  | .letBind name value :: stmts =>
      have areOthers := Stmt.isProgram_kindsList stmts spellable.2 operations.2
      have inner := value.derived spellable.1.2 operations.1.2
      exact isProgram_kinds rfl (.letBind name (inner.isLoose .equality (by decide))) areOthers
  | .ret value :: stmts =>
      have areOthers := Stmt.isProgram_kindsList stmts spellable.2 operations.2
      have inner := value.derived spellable.1 operations.1
      exact isProgram_kinds rfl (.ret (inner.isLoose .equality (by decide))) areOthers
  | .expr value :: stmts =>
      have areOthers := Stmt.isProgram_kindsList stmts spellable.2 operations.2
      have inner := value.derived spellable.1 operations.1
      exact isProgram_kinds rfl (.expr (inner.isLoose .equality (by decide))) areOthers

theorem Expr.derived_of_mem {onName : String → Prop} (exprs : List Expr)
    (spellable : Expr.EveryOf Expr.IsSpellable onName exprs)
    (operations : Expr.EveryOf Expr.HasOperation (fun _ => True) exprs) :
    ∀ expr ∈ exprs, expr.Derived := by
  match exprs with
  | [] => exact fun _ isMember => absurd isMember List.not_mem_nil
  | expr :: exprs =>
      exact List.forall_mem_cons.mpr ⟨expr.derived spellable.1 operations.1,
        Expr.derived_of_mem exprs spellable.2 operations.2⟩

end

/-! ## Parentheses in pairs -/

namespace Grammar.Balanced

theorem flatten {kindsList : List (List Kind)} (balanced : ∀ kinds ∈ kindsList, Balanced kinds) :
    Balanced kindsList.flatten := by
  induction kindsList with
  | nil => exact .nil
  | cons kinds kindsList ih =>
      obtain ⟨isFirst, areOthers⟩ := List.forall_mem_cons.mp balanced
      exact isFirst.append (ih areOthers)

theorem separated {kindsList : List (List Kind)}
    (balanced : ∀ kinds ∈ kindsList, Balanced kinds) :
    Balanced (List.intercalate [.symbol .comma] kindsList) := by
  cases kindsList with
  | nil => exact .nil
  | cons kinds kindsList =>
      obtain ⟨isFirst, areOthers⟩ := List.forall_mem_cons.mp balanced
      rw [intercalate_cons, List.flatMap_def]
      refine isFirst.append (flatten ?_)
      intro kinds isMember
      obtain ⟨other, isOther, rfl⟩ := List.mem_map.mp isMember
      exact cons (by trivial) (areOthers other isOther)

theorem block {statements : List (List Kind)} (balanced : ∀ kinds ∈ statements, Balanced kinds) :
    Balanced (blockKinds statements) :=
  cons trivial ((flatten balanced).append (Plain.balanced (by trivial)))

end Grammar.Balanced

mutual

theorem Expr.balanced_kinds (expr : Expr) : Balanced expr.kinds := by
  match expr with
  | .ident _ => exact .cons trivial .nil
  | .int _ => exact .cons trivial .nil
  | .bool true => exact .cons trivial .nil
  | .bool false => exact .cons trivial .nil
  | .prefixOp op operand => exact .group (.cons (plain_prefixOp op) operand.balanced_kinds)
  | .infixOp op left right =>
      exact .group (left.balanced_kinds.append (.cons (plain_infixOp op) right.balanced_kinds))
  | .ifElse condition consequence none =>
      exact balanced_if.append (condition.balanced_kinds.append
        (.block (Stmt.balanced_kindsList consequence)))
  | .ifElse condition consequence (some alternative) =>
      exact balanced_if.append (condition.balanced_kinds.append
        ((Balanced.block (Stmt.balanced_kindsList consequence)).append
          (.cons trivial (.block (Stmt.balanced_kindsList alternative)))))
  | .fn parameters body =>
      exact .cons trivial ((Orderly.names parameters).balanced.group.append
        (.block (Stmt.balanced_kindsList body)))
  | .call callee arguments =>
      exact callee.balanced_kinds.append (.group (.separated (Expr.balanced_kindsList arguments)))

theorem Stmt.balanced_kinds (stmt : Stmt) : Balanced stmt.kinds := by
  match stmt with
  | .letBind name value =>
      exact .cons trivial (.cons trivial (.cons trivial
        (value.balanced_kinds.append (.cons trivial .nil))))
  | .ret value => exact .cons trivial (value.balanced_kinds.append (.cons trivial .nil))
  | .expr value => exact value.balanced_kinds.append (.cons trivial .nil)

theorem Stmt.balanced_kindsList (stmts : List Stmt) :
    ∀ kinds ∈ Stmt.kindsList stmts, Balanced kinds := by
  match stmts with
  | [] => exact fun _ isMember => absurd isMember List.not_mem_nil
  | stmt :: stmts =>
      exact List.forall_mem_cons.mpr ⟨stmt.balanced_kinds, Stmt.balanced_kindsList stmts⟩

theorem Expr.balanced_kindsList (exprs : List Expr) :
    ∀ kinds ∈ Expr.kindsList exprs, Balanced kinds := by
  match exprs with
  | [] => exact fun _ isMember => absurd isMember List.not_mem_nil
  | expr :: exprs =>
      exact List.forall_mem_cons.mpr ⟨expr.balanced_kinds, Expr.balanced_kindsList exprs⟩

end

/-! ## Conditions that are no operations -/

/-- Where a group is closed that begins some tokens. -/
theorem Grammar.Balanced.closes {kinds rest inner after : List Kind} (balanced : Balanced kinds)
    (begins : groupKinds kinds ++ rest = .symbol .leftParen :: inner)
    (closes : behindClosing 0 inner = some after) : after = rest := by
  have isInner : inner = kinds ++ .symbol .rightParen :: rest := by
    simpa [groupKinds] using begins.symm
  rw [isInner, balanced.behindClosing_eq] at closes
  exact (Option.some.inj closes).symm

/-- If an expression begins with a parenthesis, it ends where that one is closed, or the group
is called. Only an operation ends there. -/
theorem Expr.behindClosing_kinds (expr : Expr) {rest inner after : List Kind}
    (begins : expr.kinds ++ rest = .symbol .leftParen :: inner)
    (closes : behindClosing 0 inner = some after) :
    (expr.IsOperation ∧ after = rest) ∨ ∃ more, after = .symbol .leftParen :: more := by
  match expr with
  | .ident _ => cases begins
  | .int _ => cases begins
  | .bool true => cases begins
  | .bool false => cases begins
  | .prefixOp op operand =>
      have balanced := Balanced.cons (plain_prefixOp op) operand.balanced_kinds
      exact Or.inl ⟨trivial, balanced.closes begins closes⟩
  | .infixOp op left right =>
      have balanced := left.balanced_kinds.append
        (.cons (plain_infixOp op) right.balanced_kinds)
      exact Or.inl ⟨trivial, balanced.closes begins closes⟩
  | .ifElse _ _ none => cases begins
  | .ifElse _ _ (some _) => cases begins
  | .fn _ _ => cases begins
  | .call callee arguments =>
      rw [Expr.kinds, List.append_assoc] at begins
      rcases callee.behindClosing_kinds begins closes with ⟨-, isRest⟩ | isCalled
      · exact Or.inr ⟨_, isRest⟩
      · exact Or.inr isCalled

/-- The groups that conditionals need are there if the right tokens follow. -/
def Grammar.Guardable (kinds : List Kind) : Prop := ∃ more, Guarded more kinds

namespace Grammar.Guardable

theorem left {first second : List Kind} (guardable : Guardable (first ++ second)) :
    Guardable first := by
  obtain ⟨more, guarded⟩ := guardable
  exact ⟨second ++ more, (guarded_append.mp guarded).1⟩

theorem right {first second : List Kind} (guardable : Guardable (first ++ second)) :
    Guardable second := by
  obtain ⟨more, guarded⟩ := guardable
  exact ⟨more, (guarded_append.mp guarded).2⟩

theorem tail {kind : Kind} {kinds : List Kind} (guardable : Guardable (kind :: kinds)) :
    Guardable kinds :=
  @right [kind] kinds guardable

theorem group {kinds : List Kind} (guardable : Guardable (groupKinds kinds)) : Guardable kinds :=
  guardable.tail.left

theorem flatten {kindsList : List (List Kind)} (guardable : Guardable kindsList.flatten) :
    ∀ kinds ∈ kindsList, Guardable kinds := by
  induction kindsList with
  | nil => exact fun _ isMember => absurd isMember List.not_mem_nil
  | cons kinds kindsList ih => exact List.forall_mem_cons.mpr ⟨guardable.left, ih guardable.right⟩

theorem separated {kindsList : List (List Kind)}
    (guardable : Guardable (List.intercalate [.symbol .comma] kindsList)) :
    ∀ kinds ∈ kindsList, Guardable kinds := by
  cases kindsList with
  | nil => exact fun _ isMember => absurd isMember List.not_mem_nil
  | cons kinds kindsList =>
      rw [intercalate_cons, List.flatMap_def] at guardable
      refine List.forall_mem_cons.mpr ⟨guardable.left, fun other isMember => ?_⟩
      exact tail (guardable.right.flatten _ (List.mem_map_of_mem isMember))

theorem block {statements : List (List Kind)} (guardable : Guardable (blockKinds statements)) :
    ∀ kinds ∈ statements, Guardable kinds :=
  guardable.tail.left.flatten

/-- A condition with a block behind it is an operation, if it has the group it needs. -/
theorem condition {expr : Expr} {statements : List (List Kind)} {behind : List Kind}
    (guardable : Guardable (.keyword .ifWord :: (expr.kinds ++ (blockKinds statements ++ behind)))) :
    expr.IsOperation := by
  obtain ⟨more, needs, -⟩ := guardable
  obtain ⟨inner, after, begins, closes⟩ := needs rfl
  rw [List.append_assoc] at begins
  rcases expr.behindClosing_kinds begins closes with ⟨operation, -⟩ | ⟨_, isCalled⟩
  · exact operation
  · cases isCalled

end Grammar.Guardable

mutual

theorem Expr.operations_of_guardable (expr : Expr) (guardable : Guardable expr.kinds) :
    expr.Every Expr.HasOperation fun _ => True := by
  match expr with
  | .ident _ => exact ⟨trivial, trivial⟩
  | .int _ => exact trivial
  | .bool _ => exact trivial
  | .prefixOp _ operand => exact ⟨trivial, operand.operations_of_guardable guardable.group.tail⟩
  | .infixOp _ left right =>
      exact ⟨trivial, left.operations_of_guardable guardable.group.left,
        right.operations_of_guardable guardable.group.right.tail⟩
  | .ifElse condition consequence none =>
      have needs := guardable
      rw [Expr.kinds, ← List.append_nil (blockKinds _)] at needs
      exact ⟨needs.condition, condition.operations_of_guardable guardable.tail.left,
        Stmt.operations_of_guardable consequence guardable.tail.right.block⟩
  | .ifElse condition consequence (some alternative) =>
      exact ⟨guardable.condition, condition.operations_of_guardable guardable.tail.left,
        Stmt.operations_of_guardable consequence guardable.tail.right.left.block,
        Stmt.operations_of_guardable alternative guardable.tail.right.right.tail.block⟩
  | .fn parameters body =>
      exact ⟨trivial, fun _ _ => trivial,
        Stmt.operations_of_guardable body guardable.tail.right.block⟩
  | .call callee arguments =>
      exact ⟨trivial, callee.operations_of_guardable guardable.left,
        Expr.operations_of_guardable_mem arguments guardable.right.group.separated⟩

/-- If conditionals have the groups they need, their conditions are operations. -/
theorem Stmt.operations_of_guardable (stmts : List Stmt)
    (guardable : ∀ kinds ∈ Stmt.kindsList stmts, Guardable kinds) :
    Stmt.EveryOf Expr.HasOperation (fun _ => True) stmts := by
  match stmts with
  | [] => exact trivial
  | .letBind _ value :: stmts =>
      obtain ⟨isFirst, areOthers⟩ := List.forall_mem_cons.mp guardable
      exact ⟨⟨trivial, value.operations_of_guardable isFirst.tail.tail.tail.left⟩,
        Stmt.operations_of_guardable stmts areOthers⟩
  | .ret value :: stmts =>
      obtain ⟨isFirst, areOthers⟩ := List.forall_mem_cons.mp guardable
      exact ⟨value.operations_of_guardable isFirst.tail.left,
        Stmt.operations_of_guardable stmts areOthers⟩
  | .expr value :: stmts =>
      obtain ⟨isFirst, areOthers⟩ := List.forall_mem_cons.mp guardable
      exact ⟨value.operations_of_guardable isFirst.left,
        Stmt.operations_of_guardable stmts areOthers⟩

theorem Expr.operations_of_guardable_mem (exprs : List Expr)
    (guardable : ∀ kinds ∈ Expr.kindsList exprs, Guardable kinds) :
    Expr.EveryOf Expr.HasOperation (fun _ => True) exprs := by
  match exprs with
  | [] => exact trivial
  | expr :: exprs =>
      obtain ⟨isFirst, areOthers⟩ := List.forall_mem_cons.mp guardable
      exact ⟨expr.operations_of_guardable isFirst,
        Expr.operations_of_guardable_mem exprs areOthers⟩

end

/-- The tokens of a program's canonical form are a program, and then this one, exactly if all
conditions are operations. -/
theorem Program.isProgram_kinds_iff {onName : String → Prop} {program : Program}
    (spellable : Stmt.EveryOf Expr.IsSpellable onName program) :
    (program.ConditionsAreOperations → IsProgram program.kinds program) ∧
      ∀ other, IsProgram program.kinds other → program.ConditionsAreOperations := by
  refine ⟨Stmt.isProgram_kindsList program spellable, fun other isProgram => ?_⟩
  have guardable : Guardable program.kinds := ⟨[], isProgram.orderly.guarded []⟩
  exact Stmt.operations_of_guardable program guardable.flatten

end Monkey
