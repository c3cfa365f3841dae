/-
# The canonical form tells the tree

Conditions and callees get no parentheses of their own, so much of what is written in the canonical
form is no program to the reader of the language. Still no two trees are written alike. To see this,
the tree is built again from the tokens, one after the other, with a stack of what is still open
around the place. On canonical forms this never goes wrong; on anything else it may end anywhere.

There is one token that does not tell at once what it begins. Behind the parenthesis of an operation
a minus sign may be the operator, or it may belong to the integer with which a left operand begins.
What comes next is an operand in both cases, so it is read as that of the operator, and if it is an
operator that follows, the sign is given back.
-/

import Mathlib
import Monkey.Proofs.Program.Reparse

namespace Monkey

open Grammar

/-! ## Negative integers -/

/-- A negative integer is written by two tokens, and everything else by one. -/
def Kind.signed : Kind → List Kind
  | .int text =>
    match text.toList with
    | '-' :: digits => [.symbol .minus, .int (String.ofList digits)]
    | _ => [.int text]
  | kind => [kind]

theorem signed_intText {value : Int64} (nonneg : 0 ≤ value.toInt) :
    (Kind.int (intText value)).signed =
      [.int (String.ofList (Nat.toDigits 10 value.toInt.toNat))] := by
  rw [Kind.signed]
  split
  · next isSigned =>
      rw [toList_intText nonneg] at isSigned
      have isDigit := (shape_digits value.toInt.toNat).1.2 '-'
      rw [String.toList_ofList, isSigned] at isDigit
      cases isDigit List.mem_cons_self
  · rw [intText_of_nonneg nonneg]

theorem signed_intText_of_neg {value : Int64} (negative : value.toInt < 0) :
    (Kind.int (intText value)).signed =
      [.symbol .minus, .int (String.ofList (Nat.toDigits 10 value.toInt.natAbs))] := by
  simp only [Kind.signed, toList_intText_of_neg negative]

/-- Every integer is written by the tokens that it is split into. -/
theorem splits_signed : Splits Kind.signed fun _ => True where
  whole kind notInt := by
    cases kind with
    | int digits => exact absurd rfl (notInt digits)
    | _ => rfl
  integer value _ := by
    by_cases nonneg : 0 ≤ value.toInt
    · rw [signed_intText nonneg, toList_intText nonneg]
      exact .digits _
    · have negative := Int.not_le.mp nonneg
      rw [signed_intText_of_neg negative, toList_intText_of_neg negative]
      exact fun rest more parted spelled =>
        .symbol .minus trivial (Writes.digits _ rest more parted spelled)

/-- The digits of a negative integer denote it with the other sign. Those of the least one denote too
much, and this comes to the same. -/
theorem Int64.ofNat_natAbs {value : Int64} (negative : value.toInt < 0) :
    Int64.ofNat value.toInt.natAbs = -value := by
  have isAbs : (value.toInt.natAbs : Int) = -value.toInt := Int.ofNat_natAbs_of_nonpos (by omega)
  rw [← Int64.ofInt_eq_ofNat, isAbs, Int64.ofInt_neg, Int64.ofInt_toInt]

/-- The integer at the beginning with the other sign. -/
def Expr.negated : Expr → Expr
  | .int value => .int (-value)
  | .call callee arguments => .call callee.negated arguments
  | expr => expr

theorem Expr.negated_negated (expr : Expr) : expr.negated.negated = expr := by
  match expr with
  | .int value => exact congrArg Expr.int Int64.neg_neg
  | .call callee arguments => exact congrArg (Expr.call · arguments) callee.negated_negated
  | .ident _ => rfl
  | .bool _ => rfl
  | .prefixOp _ _ => rfl
  | .infixOp _ _ _ => rfl
  | .ifElse _ _ _ => rfl
  | .fn _ _ => rfl

/-! ## Building the tree again -/

namespace Canonical

/-- What a block belongs to. -/
inductive Owner
  | conditional (condition : Expr)
  | otherwise (condition : Expr) (consequence : Block)
  | function (parameters : List String)

/-- The expression that a block completes. -/
def Owner.close : Owner → Block → Expr
  | .conditional condition, stmts => .ifElse condition stmts none
  | .otherwise condition consequence, stmts => .ifElse condition consequence (some stmts)
  | .function parameters, stmts => .fn parameters stmts

/-- What is open around an expression, with what has been read of it. -/
inductive Open
  | group
  | prefixOp (op : PrefixOp)
  | infixOp (op : InfixOp) (left : Expr)
  | condition
  | argument (callee : Expr) (earlier : List Expr)
  | statement (wrap : Expr → Stmt) (owner : Owner) (earlier : Block)

/-- What comes next, and what is open around it. -/
inductive State
  | operand (around : List Open)
  /-- Behind the parenthesis of an operation. -/
  | operation (around : List Open)
  /-- Behind the sign of an integer. -/
  | digits (around : List Open)
  /-- Behind an expression, which may still go on. -/
  | expr (expr : Expr) (around : List Open)
  | otherwise (condition : Expr) (consequence : Block) (around : List Open)
  | parameters (earlier : List String) (around : List Open)
  | statement (owner : Owner) (earlier : Block) (around : List Open)
  | name (owner : Owner) (earlier : Block) (around : List Open)
  | assign (name : String) (owner : Owner) (earlier : Block) (around : List Open)
  | lost

/-- The first token of an operand, or the parenthesis behind no arguments. -/
def operand (around : List Open) : Kind → State
  | .ident name => .expr (.ident name) around
  | .int digits => .expr (.int (Int64.ofNat (number digits))) around
  | .keyword .trueWord => .expr (.bool true) around
  | .keyword .falseWord => .expr (.bool false) around
  | .symbol .minus => .digits around
  | .symbol .leftParen => .operation around
  | .keyword .ifWord => .operand (.condition :: around)
  | .keyword .function => .parameters [] around
  | .symbol .rightParen =>
    match around with
    | .argument callee earlier :: around => .expr (.call callee earlier) around
    | _ => .lost
  | _ => .lost

/-- The token behind the parenthesis of an operation. -/
def operation (around : List Open) : Kind → State
  | .symbol .minus => .operand (.prefixOp .minus :: around)
  | .symbol .bang => .operand (.prefixOp .bang :: around)
  | kind => operand (.group :: around) kind

/-- The operator behind a left operand. A sign that has been taken for one is given back. -/
def operator (op : InfixOp) (left : Expr) : List Open → State
  | .group :: around => .operand (.infixOp op left :: around)
  | .prefixOp .minus :: around => .operand (.infixOp op left.negated :: around)
  | _ => .lost

/-- The parenthesis behind an operation or the last argument. -/
def close (expr : Expr) : List Open → State
  | .prefixOp op :: around => .expr (.prefixOp op expr) around
  | .infixOp op left :: around => .expr (.infixOp op left expr) around
  | .argument callee earlier :: around => .expr (.call callee (earlier ++ [expr])) around
  | _ => .lost

/-- The token behind an expression. -/
def behind (expr : Expr) (around : List Open) : Kind → State
  | .symbol .leftParen => .operand (.argument expr [] :: around)
  | .symbol .rightParen => close expr around
  | .symbol .comma =>
    match around with
    | .argument callee earlier :: around =>
      .operand (.argument callee (earlier ++ [expr]) :: around)
    | _ => .lost
  | .symbol .leftBrace =>
    match around with
    | .condition :: around => .statement (.conditional expr) [] around
    | _ => .lost
  | .symbol .semicolon =>
    match around with
    | .statement wrap owner earlier :: around => .statement owner (earlier ++ [wrap expr]) around
    | _ => .lost
  | .keyword .elseWord =>
    match expr with
    | .ifElse condition consequence none => .otherwise condition consequence around
    | _ => .lost
  | .symbol spelled =>
    match spelled.infixOp? with
    | some op => operator op expr around
    | none => .lost
  | _ => .lost

/-- The first token of a statement, or the brace behind the last one. -/
def statement (owner : Owner) (earlier : Block) (around : List Open) : Kind → State
  | .keyword .letWord => .name owner earlier around
  | .keyword .returnWord => .operand (.statement .ret owner earlier :: around)
  | .symbol .rightBrace => .expr (owner.close earlier) around
  | kind => operand (.statement .expr owner earlier :: around) kind

/-- Take one token. -/
def step : State → Kind → State
  | .operand around, kind => operand around kind
  | .operation around, kind => operation around kind
  | .digits around, .int digits => .expr (.int (-Int64.ofNat (number digits))) around
  | .expr expr around, kind => behind expr around kind
  | .otherwise condition consequence around, .symbol .leftBrace =>
    .statement (.otherwise condition consequence) [] around
  | .parameters earlier around, .ident name => .parameters (earlier ++ [name]) around
  | .parameters earlier around, .symbol .leftBrace => .statement (.function earlier) [] around
  | .parameters earlier around, _ => .parameters earlier around
  | .statement owner earlier around, kind => statement owner earlier around kind
  | .name owner earlier around, .ident name => .assign name owner earlier around
  | .assign name owner earlier around, .symbol .assign =>
    .operand (.statement (.letBind name) owner earlier :: around)
  | _, _ => .lost

/-- The tokens lead from one state to another. -/
def Leads (before : State) (kinds : List Kind) (after : State) : Prop :=
  kinds.foldl step before = after

namespace Leads

variable {before middle after : State} {kind : Kind} {kinds more : List Kind}

theorem nil : Leads before [] before := rfl

theorem cons (isStep : step before kind = middle) (later : Leads middle kinds after) :
    Leads before (kind :: kinds) after := by
  rw [Leads, List.foldl_cons, isStep]
  exact later

theorem single (isStep : step before kind = after) : Leads before [kind] after := isStep

theorem append (first : Leads before kinds middle) (second : Leads middle more after) :
    Leads before (kinds ++ more) after := by
  rw [Leads, List.foldl_append, first]
  exact second

/-- An operation between its parentheses. -/
theorem group (first : Leads (step before (.symbol .leftParen)) kinds middle)
    (isStep : step middle (.symbol .rightParen) = after) :
    Leads before (groupKinds kinds) after :=
  cons rfl (first.append (single isStep))

/-- Tokens lead nowhere else. -/
theorem unique {other : State} (leads : Leads before kinds after) (again : Leads before kinds other) :
    after = other :=
  leads.symm.trans again

theorem moreNames (earlier bound : List String) (around : List Open) :
    Leads (.parameters earlier around) (moreNames bound) (.parameters (earlier ++ bound) around) := by
  induction bound generalizing earlier with
  | nil =>
      rw [List.append_nil]
      exact nil
  | cons name bound ih =>
      rw [List.append_cons]
      exact cons rfl (cons rfl (ih (earlier ++ [name])))

theorem names (bound : List String) (around : List Open) :
    Leads (.parameters [] around) (names bound) (.parameters bound around) := by
  cases bound with
  | nil => exact nil
  | cons name bound => exact cons rfl (moreNames [name] bound around)

end Leads

end Canonical

open Canonical

/-! ## From a tree to its tokens and back -/

/-- The tokens of what is written for an expression. -/
def Expr.tokens (expr : Expr) : List Kind := expr.kinds.flatMap Kind.signed

/-- The tokens of what is written for statements. -/
def Stmt.tokens (stmts : List Stmt) : List (List Kind) :=
  (Stmt.kindsList stmts).map (List.flatMap Kind.signed)

/-- From its tokens the expression is built again where an operand is due, where a statement is due,
and behind the parenthesis of an operation. There its sign may have been taken for an operator. -/
structure Expr.Rebuilt (expr : Expr) : Prop where
  asOperand : ∀ around, Leads (.operand around) expr.tokens (.expr expr around)
  asStatement : ∀ owner earlier around, Leads (.statement owner earlier around) expr.tokens
    (.expr expr (.statement .expr owner earlier :: around))
  asFirst : (∀ around, Leads (.operation around) expr.tokens (.expr expr (.group :: around))) ∨
    ∀ around, Leads (.operation around) expr.tokens
      (.expr expr.negated (.prefixOp .minus :: around))

namespace Expr.Rebuilt

variable {expr left : Expr}

/-- An expression begins with a token that means the same everywhere, but for its sign. -/
theorem ofFirst {kind : Kind} {kinds : List Kind} (isTokens : expr.tokens = kind :: kinds)
    (asOperand : ∀ around, Leads (.operand around) (kind :: kinds) (.expr expr around))
    (sameStatement : ∀ owner earlier around, step (.statement owner earlier around) kind =
      step (.operand (.statement .expr owner earlier :: around)) kind)
    (asFirst : (∀ around, step (.operation around) kind = step (.operand (.group :: around)) kind) ∨
      ∀ around, Leads (.operation around) (kind :: kinds)
        (.expr expr.negated (.prefixOp .minus :: around))) :
    expr.Rebuilt := by
  constructor
  · rw [isTokens]
    exact asOperand
  · rw [isTokens]
    exact fun owner earlier around => .cons (sameStatement owner earlier around) (asOperand _)
  · rw [isTokens]
    exact asFirst.imp_left fun sameFirst around => .cons (sameFirst around) (asOperand _)

theorem ofInt (value : Int64) : (Expr.int value).Rebuilt := by
  have isTokens : (Expr.int value).tokens = (Kind.int (intText value)).signed :=
    List.flatMap_singleton _ _
  by_cases nonneg : 0 ≤ value.toInt
  · rw [signed_intText nonneg] at isTokens
    have isValue : Int64.ofNat (number (String.ofList (Nat.toDigits 10 value.toInt.toNat))) =
        value := by
      rw [number_digits, Int64.ofNat_toNat nonneg]
    refine ofFirst isTokens (fun around => .single ?_) (fun _ _ _ => rfl) (Or.inl fun _ => rfl)
    exact congrArg (fun value => State.expr (.int value) around) isValue
  · have negative := Int.not_le.mp nonneg
    rw [signed_intText_of_neg negative] at isTokens
    have isNegated : Int64.ofNat (number (String.ofList (Nat.toDigits 10 value.toInt.natAbs))) =
        -value := by
      rw [number_digits, Int64.ofNat_natAbs negative]
    refine ofFirst isTokens (fun around => .cons rfl (.single ?_)) (fun _ _ _ => rfl)
      (Or.inr fun around => .cons rfl (.single ?_))
    · have isValue := (congrArg Neg.neg isNegated).trans Int64.neg_neg
      exact congrArg (fun value => State.expr (.int value) around) isValue
    · exact congrArg (fun value => State.expr (.int value) (.prefixOp .minus :: around)) isNegated

/-- What is called goes on with its arguments. -/
theorem ofCall {callee : Expr} {arguments : List Expr} {kinds : List Kind}
    (isTokens : (Expr.call callee arguments).tokens = callee.tokens ++ kinds)
    (rebuilt : callee.Rebuilt)
    (given : ∀ callee around,
      Leads (.expr callee around) kinds (.expr (.call callee arguments) around)) :
    (Expr.call callee arguments).Rebuilt := by
  constructor
  · rw [isTokens]
    exact fun around => (rebuilt.asOperand around).append (given _ _)
  · rw [isTokens]
    exact fun owner earlier around => (rebuilt.asStatement owner earlier around).append (given _ _)
  · rw [isTokens]
    exact rebuilt.asFirst.imp (fun isWhole around => (isWhole around).append (given _ _))
      fun isNegated around => (isNegated around).append (given _ _)

/-- Behind a left operand comes its operator. -/
theorem infixOp (rebuilt : left.Rebuilt) (op : InfixOp) (around : List Open) :
    Leads (.operation around) (left.tokens ++ [.symbol op.symbol])
      (.operand (.infixOp op left :: around)) := by
  rcases rebuilt.asFirst with isWhole | isNegated
  · refine (isWhole around).append (.single ?_)
    cases op <;> rfl
  · refine (isNegated around).append (.single ?_)
    have isOperator : step (.expr left.negated (.prefixOp .minus :: around)) (.symbol op.symbol) =
        .operand (.infixOp op left.negated.negated :: around) := by
      cases op <;> rfl
    rw [isOperator, negated_negated]

end Expr.Rebuilt

namespace Canonical.Leads

/-- Arguments behind the first one. -/
theorem moreArguments {exprs : List Expr} (rebuilt : ∀ expr ∈ exprs, expr.Rebuilt)
    (callee first : Expr) (earlier : List Expr) (around : List Open) :
    Leads (.expr first (.argument callee earlier :: around))
      ((exprs.flatMap fun expr => .symbol .comma :: expr.tokens) ++ [.symbol .rightParen])
      (.expr (.call callee (earlier ++ first :: exprs)) around) := by
  induction exprs generalizing first earlier with
  | nil => exact single rfl
  | cons expr exprs ih =>
      obtain ⟨isFirst, areOthers⟩ := List.forall_mem_cons.mp rebuilt
      rw [List.append_cons earlier, List.flatMap_cons, List.append_assoc]
      exact cons rfl ((isFirst.asOperand _).append (ih areOthers expr (earlier ++ [first])))

theorem arguments {exprs : List Expr} (rebuilt : ∀ expr ∈ exprs, expr.Rebuilt) (callee : Expr)
    (around : List Open) :
    Leads (.expr callee around)
      (groupKinds (List.intercalate [.symbol .comma] (exprs.map Expr.tokens)))
      (.expr (.call callee exprs) around) := by
  cases exprs with
  | nil => exact group nil rfl
  | cons expr exprs =>
      obtain ⟨isFirst, areOthers⟩ := List.forall_mem_cons.mp rebuilt
      rw [List.map_cons, intercalate_cons, groupKinds, List.append_assoc, List.flatMap_map]
      exact cons rfl ((isFirst.asOperand _).append (moreArguments areOthers callee expr [] around))

/-- A statement with its semicolon. -/
theorem ended {before : State} {kinds : List Kind} {value : Expr} {wrap : Expr → Stmt}
    {owner : Owner} {earlier : Block} {around : List Open}
    (leads : Leads before kinds (.expr value (.statement wrap owner earlier :: around))) :
    Leads before (kinds ++ [.symbol .semicolon])
      (.statement owner (earlier ++ [wrap value]) around) :=
  leads.append (single rfl)

/-- A statement in front of others. -/
theorem behindStatement {owner : Owner} {earlier stmts : Block} {stmt : Stmt} {around : List Open}
    (first : Leads (.statement owner earlier around) kinds
      (.statement owner (earlier ++ [stmt]) around))
    (others : Leads (.statement owner (earlier ++ [stmt]) around) more
      (.statement owner ((earlier ++ [stmt]) ++ stmts) around)) :
    Leads (.statement owner earlier around) (kinds ++ more)
      (.statement owner (earlier ++ stmt :: stmts) around) := by
  rw [List.append_cons]
  exact first.append others

/-- Statements between the braces of a block. -/
theorem block (owner : Owner) {before : State} {stmts : List Stmt} {around : List Open}
    (opens : step before (.symbol .leftBrace) = .statement owner [] around)
    (rebuilt : ∀ owner earlier around, Leads (.statement owner earlier around)
      (Stmt.tokens stmts).flatten (.statement owner (earlier ++ stmts) around)) :
    Leads before (blockKinds (Stmt.tokens stmts)) (.expr (owner.close stmts) around) :=
  cons opens ((rebuilt owner [] around).append (single rfl))

end Canonical.Leads

/-! ## Tokens of constructs -/

namespace Expr

theorem tokens_prefixOp (op : PrefixOp) (operand : Expr) :
    (Expr.prefixOp op operand).tokens = groupKinds (.symbol op.symbol :: operand.tokens) := by
  rw [tokens, Expr.kinds, splits_signed.group, splits_signed.symbol]
  rfl

theorem tokens_infixOp (op : InfixOp) (left right : Expr) :
    (Expr.infixOp op left right).tokens =
      groupKinds ((left.tokens ++ [.symbol op.symbol]) ++ right.tokens) := by
  rw [tokens, Expr.kinds, splits_signed.group, List.flatMap_append, splits_signed.symbol,
    List.append_assoc]
  rfl

theorem tokens_ifThen (condition : Expr) (consequence : Block) :
    (Expr.ifElse condition consequence none).tokens =
      .keyword .ifWord :: (condition.tokens ++ blockKinds (Stmt.tokens consequence)) := by
  rw [tokens, Expr.kinds, splits_signed.keyword, List.flatMap_append, splits_signed.block]
  rfl

theorem tokens_ifThenElse (condition : Expr) (consequence alternative : Block) :
    (Expr.ifElse condition consequence (some alternative)).tokens =
      .keyword .ifWord :: (condition.tokens ++ (blockKinds (Stmt.tokens consequence) ++
        .keyword .elseWord :: blockKinds (Stmt.tokens alternative))) := by
  rw [tokens, Expr.kinds, splits_signed.keyword, List.flatMap_append, List.flatMap_append,
    splits_signed.keyword, splits_signed.block, splits_signed.block]
  rfl

theorem tokens_fn (parameters : List String) (body : Block) :
    (Expr.fn parameters body).tokens =
      .keyword .function :: (groupKinds (names parameters) ++ blockKinds (Stmt.tokens body)) := by
  rw [tokens, Expr.kinds, splits_signed.keyword, List.flatMap_append, splits_signed.group,
    splits_signed.names, splits_signed.block]
  rfl

theorem tokens_call (callee : Expr) (arguments : List Expr) :
    (Expr.call callee arguments).tokens = callee.tokens ++
      groupKinds (List.intercalate [.symbol .comma] (arguments.map Expr.tokens)) := by
  have isMap : (Expr.kindsList arguments).map (List.flatMap Kind.signed) =
      arguments.map Expr.tokens := by
    induction arguments with
    | nil => rfl
    | cons expr exprs ih => rw [Expr.kindsList, List.map_cons, ih]; rfl
  rw [tokens, Expr.kinds, List.flatMap_append, splits_signed.group, splits_signed.separated, isMap]
  rfl

end Expr

namespace Stmt

theorem tokens_letBind (name : String) (value : Expr) (stmts : List Stmt) :
    Stmt.tokens (.letBind name value :: stmts) =
      (.keyword .letWord :: .ident name :: .symbol .assign :: (value.tokens ++ [.symbol .semicolon])) ::
        Stmt.tokens stmts := by
  rw [tokens, kindsList, List.map_cons, kinds, splits_signed.keyword, splits_signed.ident,
    splits_signed.symbol, List.flatMap_append]
  rfl

theorem tokens_ret (value : Expr) (stmts : List Stmt) :
    Stmt.tokens (.ret value :: stmts) =
      (.keyword .returnWord :: (value.tokens ++ [.symbol .semicolon])) :: Stmt.tokens stmts := by
  rw [tokens, kindsList, List.map_cons, kinds, splits_signed.keyword, List.flatMap_append]
  rfl

theorem tokens_expr (value : Expr) (stmts : List Stmt) :
    Stmt.tokens (.expr value :: stmts) =
      (value.tokens ++ [.symbol .semicolon]) :: Stmt.tokens stmts := by
  rw [tokens, kindsList, List.map_cons, kinds, List.flatMap_append]
  rfl

end Stmt

/-! ## All trees -/

mutual

theorem Expr.rebuilt (expr : Expr) : expr.Rebuilt := by
  match expr with
  | .ident name => exact .ofFirst rfl (fun _ => .single rfl) (fun _ _ _ => rfl) (Or.inl fun _ => rfl)
  | .int value => exact .ofInt value
  | .bool true => exact .ofFirst rfl (fun _ => .single rfl) (fun _ _ _ => rfl) (Or.inl fun _ => rfl)
  | .bool false => exact .ofFirst rfl (fun _ => .single rfl) (fun _ _ _ => rfl) (Or.inl fun _ => rfl)
  | .prefixOp op operand =>
      have inner := operand.rebuilt.asOperand
      refine .ofFirst (Expr.tokens_prefixOp op operand) (fun around => ?_) (fun _ _ _ => rfl)
        (Or.inl fun _ => rfl)
      refine .group (.cons ?_ (inner (.prefixOp op :: around))) rfl
      cases op <;> rfl
  | .infixOp op left right =>
      have first := left.rebuilt.infixOp op
      have second := right.rebuilt.asOperand
      refine .ofFirst (Expr.tokens_infixOp op left right) (fun around => ?_) (fun _ _ _ => rfl)
        (Or.inl fun _ => rfl)
      exact .group ((first around).append (second _)) rfl
  | .ifElse condition consequence none =>
      have first := condition.rebuilt.asOperand
      have second := Stmt.rebuilt consequence
      refine .ofFirst (Expr.tokens_ifThen condition consequence) (fun around => ?_)
        (fun _ _ _ => rfl) (Or.inl fun _ => rfl)
      exact .cons rfl ((first _).append (.block (.conditional condition) rfl second))
  | .ifElse condition consequence (some alternative) =>
      have first := condition.rebuilt.asOperand
      have second := Stmt.rebuilt consequence
      have third := Stmt.rebuilt alternative
      refine .ofFirst (Expr.tokens_ifThenElse condition consequence alternative)
        (fun around => ?_) (fun _ _ _ => rfl) (Or.inl fun _ => rfl)
      have consequenceRead := (first (.condition :: around)).append
        (.block (.conditional condition) rfl second)
      have alternativeRead : Leads (.otherwise condition consequence around)
          (blockKinds (Stmt.tokens alternative))
          (.expr (.ifElse condition consequence (some alternative)) around) :=
        .block (.otherwise condition consequence) rfl third
      rw [← List.append_assoc]
      exact .cons rfl (consequenceRead.append (.cons rfl alternativeRead))
  | .fn parameters body =>
      have inner := Stmt.rebuilt body
      refine .ofFirst (Expr.tokens_fn parameters body) (fun around => ?_) (fun _ _ _ => rfl)
        (Or.inl fun _ => rfl)
      have bound : Leads (.parameters [] around) (groupKinds (names parameters))
          (.parameters parameters around) := .group (.names parameters around) rfl
      exact .cons rfl (bound.append (.block (.function parameters) rfl inner))
  | .call callee arguments =>
      exact .ofCall (Expr.tokens_call callee arguments) callee.rebuilt
        (Leads.arguments (Expr.rebuilt_of_mem arguments))

theorem Stmt.rebuilt (stmts : List Stmt) (owner : Owner) (earlier : Block) (around : List Open) :
    Leads (.statement owner earlier around) (Stmt.tokens stmts).flatten
      (.statement owner (earlier ++ stmts) around) := by
  match stmts with
  | [] =>
      rw [List.append_nil]
      exact .nil
  | .letBind name value :: stmts =>
      have asValue := value.rebuilt.asOperand (.statement (.letBind name) owner earlier :: around)
      rw [Stmt.tokens_letBind, List.flatten_cons]
      exact .behindStatement (.cons rfl (.cons rfl (.cons rfl asValue.ended)))
        (Stmt.rebuilt stmts owner _ around)
  | .ret value :: stmts =>
      have asValue := value.rebuilt.asOperand (.statement .ret owner earlier :: around)
      rw [Stmt.tokens_ret, List.flatten_cons]
      exact .behindStatement (.cons rfl asValue.ended) (Stmt.rebuilt stmts owner _ around)
  | .expr value :: stmts =>
      have asValue := value.rebuilt.asStatement owner earlier around
      rw [Stmt.tokens_expr, List.flatten_cons]
      exact .behindStatement asValue.ended (Stmt.rebuilt stmts owner _ around)

theorem Expr.rebuilt_of_mem (exprs : List Expr) : ∀ expr ∈ exprs, expr.Rebuilt := by
  match exprs with
  | [] => exact fun _ isMember => absurd isMember List.not_mem_nil
  | expr :: exprs => exact List.forall_mem_cons.mpr ⟨expr.rebuilt, Expr.rebuilt_of_mem exprs⟩

end

/-! ## From the text to the tree -/

/-- Every name in the expression is read as one identifier. Integers are any. -/
def Expr.Named (expr : Expr) : Prop := expr.Every (fun _ => True) IsIdentifier

/-- Every name in the statement is read as one identifier. -/
def Stmt.Named (stmt : Stmt) : Prop := stmt.Every (fun _ => True) IsIdentifier

/-- Every name in the program is read as one identifier. -/
def Program.Named (program : Program) : Prop := Stmt.EveryOf (fun _ => True) IsIdentifier program

/-- The same tokens are of the same statements. -/
theorem Stmt.eq_of_tokens {first second : List Stmt}
    (same : (Stmt.tokens first).flatten = (Stmt.tokens second).flatten) : first = second := by
  have isFirst := Stmt.rebuilt first (.function []) [] []
  rw [same] at isFirst
  have sameState := isFirst.unique (Stmt.rebuilt second (.function []) [] [])
  exact (State.statement.inj sameState).2.1

/-- The same text is of the same program. -/
theorem Program.eq_of_chars {first second : Program} (isFirst : first.Named)
    (isSecond : second.Named) (same : first.chars = second.chars) : first = second := by
  have firstWords := (Program.spelledAs_chars splits_signed isFirst).words_eq
  have secondWords := (Program.spelledAs_chars splits_signed isSecond).words_eq
  rw [same] at firstWords
  have sameKinds := firstWords.symm.trans secondWords
  rw [kinds, kinds, flatMap_flatten, flatMap_flatten] at sameKinds
  exact Stmt.eq_of_tokens sameKinds

theorem Stmt.eq_of_chars {first second : Stmt} (isFirst : first.Named) (isSecond : second.Named)
    (same : first.chars = second.chars) : first = second := by
  have sameProgram : Program.chars [first] = Program.chars [second] := by
    rw [Program.chars, Program.chars, List.flatMap_singleton, List.flatMap_singleton, same]
  have named {stmt : Stmt} (isNamed : stmt.Named) : Program.Named [stmt] := ⟨isNamed, trivial⟩
  exact List.head_eq_of_cons_eq (Program.eq_of_chars (named isFirst) (named isSecond) sameProgram)

theorem Expr.eq_of_chars {first second : Expr} (isFirst : first.Named) (isSecond : second.Named)
    (same : first.chars = second.chars) : first = second := by
  have sameStmt : (Stmt.expr first).chars = (Stmt.expr second).chars := by
    rw [Stmt.chars, Stmt.chars, same]
  exact Stmt.expr.inj (Stmt.eq_of_chars isFirst isSecond sameStmt)

/-- What is written for a tree is written for no other one, whatever integers there are in it, and
whatever stands as a condition or is called. -/
theorem Program.render_unambiguous :
    (∀ first second : Program, first.Named → second.Named →
      first.render = second.render → first = second) ∧
    (∀ first second : Block, Program.Named first → Program.Named second →
      Block.render first = Block.render second → first = second) ∧
    (∀ first second : Stmt, first.Named → second.Named →
      first.chars = second.chars → first = second) ∧
    ∀ first second : Expr, first.Named → second.Named →
      first.chars = second.chars → first = second := by
  refine ⟨fun first second isFirst isSecond same => ?_, fun first second isFirst isSecond same => ?_,
    fun first second => Stmt.eq_of_chars, fun first second => Expr.eq_of_chars⟩
  · exact Program.eq_of_chars isFirst isSecond (String.ofList_injective same)
  · have sameBraced := String.ofList_injective same
    have sameFunction : (Expr.fn [] first).chars = (Expr.fn [] second).chars := by
      rw [Expr.chars, Expr.chars, sameBraced]
    have named {block : Block} (isNamed : Program.Named block) : (Expr.fn [] block).Named :=
      ⟨trivial, by simp, isNamed⟩
    exact (Expr.fn.inj (Expr.eq_of_chars (named isFirst) (named isSecond) sameFunction)).2

/-- The least integer is written as its negation is, since they are the same. A literal is not
written as the operation that gives its value. -/
theorem Program.render_unambiguous_minus :
    let least : Program := [.expr (.int Int64.minValue)]
    let negated : Program := [.expr (.int (-Int64.minValue))]
    let literal : Program := [.expr (.int (-5))]
    let operation : Program := [.expr (.prefixOp .minus (.int 5))]
    least = negated ∧ literal.render ≠ operation.render := by
  intro least negated literal operation
  obtain ⟨programs, -, -, -⟩ := render_unambiguous
  constructor
  · exact programs least negated ⟨trivial, trivial⟩ ⟨trivial, trivial⟩ (by cbv)
  · intro same
    have isSame : literal = operation :=
      programs literal operation ⟨trivial, trivial⟩ ⟨⟨trivial, trivial⟩, trivial⟩ same
    exact absurd isSame (by decide)

end Monkey
