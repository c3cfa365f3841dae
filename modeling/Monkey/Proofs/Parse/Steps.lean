/-
# Steps of reading

What single rules do on a tape, as equations. An operand is known by its first token:
what it begins is worked out here once, so that everything said of operands goes by the
few ways in which they begin and not by kinds of tokens.
-/

import Monkey.Parse.Basic

namespace Monkey

/-- What the first token of an operand begins. -/
inductive Start
  | ident (name : String)
  | int (digits : String)
  | bool (value : Bool)
  | prefixOp (op : PrefixOp)
  | group
  | conditional
  | function
  | illegal
  | nothing
  deriving DecidableEq

/-- What an operand is that begins with a token of this kind. -/
def Kind.start : Kind → Start
  | .ident name => .ident name
  | .int digits => .int digits
  | .keyword .trueWord => .bool true
  | .keyword .falseWord => .bool false
  | .symbol .minus => .prefixOp .minus
  | .symbol .bang => .prefixOp .bang
  | .symbol .leftParen => .group
  | .keyword .ifWord => .conditional
  | .keyword .function => .function
  | .illegal _ => .illegal
  | _ => .nothing

namespace Tape

variable {tape : Tape}

/-! ## Kinds ahead -/

/-- The kinds of the tokens ahead. -/
def kinds (tape : Tape) : List Kind := tape.ahead.map Token.kind

/-- What comes next, unless it is the end mark, is the first of the tokens ahead. -/
theorem ahead_eq_cons (notEnd : tape.peek.kind ≠ .eof) :
    tape.ahead = tape.peek :: tape.take.ahead := by
  rw [peek, take]
  cases isAhead : tape.ahead with
  | nil =>
      rw [peek, isAhead] at notEnd
      exact absurd rfl notEnd
  | cons token tokens => rfl

theorem kinds_eq_cons (notEnd : tape.peek.kind ≠ .eof) :
    tape.kinds = tape.peek.kind :: tape.take.kinds :=
  congrArg (List.map Token.kind) (ahead_eq_cons notEnd)

theorem peek_of_kinds {kind : Kind} {others : List Kind} (isKinds : tape.kinds = kind :: others) :
    tape.peek.kind = kind ∧ tape.take.kinds = others := by
  rw [kinds] at isKinds ⊢
  rw [peek, take]
  cases isAhead : tape.ahead with
  | nil =>
      rw [isAhead] at isKinds
      cases isKinds
  | cons token tokens =>
      rw [isAhead] at isKinds
      cases isKinds
      exact ⟨rfl, rfl⟩

theorem peek_kind_of_mem_head? {kind : Kind} (isHead : kind ∈ tape.kinds.head?) :
    tape.peek.kind = kind := by
  obtain ⟨others, isKinds⟩ := List.head?_eq_some_iff.mp isHead
  exact (peek_of_kinds isKinds).1

/-- What holds of the first of the tokens ahead, and of the end mark, holds of the next token. -/
theorem peek_of_head? (property : Kind → Prop) (isHead : ∀ kind ∈ tape.kinds.head?, property kind)
    (atEnd : property .eof) : property tape.peek.kind := by
  by_cases isEnd : tape.peek.kind = .eof
  · rw [isEnd]
    exact atEnd
  · apply isHead
    rw [kinds_eq_cons isEnd]
    rfl

/-! ## Skipping -/

theorem recover_of_boundary (isBoundary : tape.atBoundary = true) :
    tape.recover =
      if tape.last.map Token.kind = some (.symbol .rightBrace) then tape.skipSemicolon
      else tape := by
  rw [recover, if_pos isBoundary]

theorem recover_of_end (notBoundary : ¬ tape.atBoundary = true) (atEnd : tape.ahead = []) :
    tape.recover = tape := by
  rw [recover, if_neg notBoundary, dif_pos atEnd]

theorem recover_of_next (notBoundary : ¬ tape.atBoundary = true) (notEnd : tape.ahead ≠ []) :
    tape.recover = tape.take.recover := by
  rw [recover, if_neg notBoundary, dif_neg notEnd]

end Tape

namespace Parser

section

variable {α β : Type}

theorem bind_of_ok {first : Parser α} {tape after : Tape} {result : α}
    (isFirst : first tape = .ok result after) (second : α → Parser β) :
    (first >>= second) tape = second result after := by
  show EStateM.bind first second tape = _
  rw [EStateM.bind, isFirst]

theorem bind_of_error {first : Parser α} {tape stopped : Tape} {stop : Stop}
    (isFirst : first tape = .error stop stopped) (second : α → Parser β) :
    (first >>= second) tape = .error stop stopped := by
  show EStateM.bind first second tape = _
  rw [EStateM.bind, isFirst]

theorem peek_bind (second : Token → Parser α) (tape : Tape) :
    (peek >>= second) tape = second tape.peek tape := rfl

theorem take_bind (second : Token → Parser α) (tape : Tape) :
    (take >>= second) tape = second tape.peek tape.take := rfl

end

/-- A symbol is taken if it comes next, and asked for otherwise. -/
theorem symbol_apply (spelled : Symbol) (tape : Tape) :
    symbol spelled tape =
      if tape.peek.kind = .symbol spelled then .ok () tape.take
      else .error (.rejected (.unexpected (.symbol spelled) tape.peek)) tape := by
  rw [symbol, peek_bind]
  split <;> rfl

theorem name_of_ident {tape : Tape} {bound : String} (isName : tape.peek.kind = .ident bound) :
    name tape = .ok bound tape.take := by
  rw [name, peek_bind, isName]
  rfl

theorem ident_of_name {tape after : Tape} {bound : String} (isOk : name tape = .ok bound after) :
    tape.peek.kind = .ident bound ∧ tape.take = after := by
  cases isKind : tape.peek.kind with
  | ident other =>
      rw [name_of_ident isKind] at isOk
      cases isOk
      exact ⟨rfl, rfl⟩
  | _ =>
      rw [name, peek_bind, isKind] at isOk
      cases isOk

/-- One semicolon is taken like any other token. -/
theorem skipSemicolon_of_semicolon {tape : Tape}
    (isSemicolon : tape.peek.kind = .symbol .semicolon) :
    skipSemicolon tape = (take >>= fun _ => pure ()) tape := by
  show EStateM.Result.ok () tape.skipSemicolon = .ok () tape.take
  rw [Tape.skipSemicolon, if_pos isSemicolon]

theorem skipSemicolon_of_ne {tape : Tape} (notSemicolon : tape.peek.kind ≠ .symbol .semicolon) :
    skipSemicolon tape = (pure () : Parser Unit) tape := by
  show EStateM.Result.ok () tape.skipSemicolon = .ok () tape
  rw [Tape.skipSemicolon, if_neg notSemicolon]

/-! ## Rules by their first token -/

variable (budget : Nat)

theorem expression_succ (level : Level) (token : Token) :
    expression (budget + 1) level token = operand budget token >>= extend budget level := by
  rw [expression]

/-- An operand, by what its first token begins. -/
theorem operand_succ (token : Token) :
    operand (budget + 1) token =
      match token.kind.start with
      | .ident name => pure (.ident name)
      | .int digits => integer token digits
      | .bool value => pure (.bool value)
      | .prefixOp op => do
        let inner ← expression budget .prefixOp (← take)
        pure (.prefixOp op inner)
      | .group => do
        let inner ← expression budget .lowest (← take)
        symbol .rightParen
        pure inner
      | .conditional => do
        symbol .leftParen
        let condition ← expression budget .lowest (← take)
        symbol .rightParen
        symbol .leftBrace
        let consequence ← block budget
        if (← peek).kind = .keyword .elseWord then
          let _ ← take
          symbol .leftBrace
          let alternative ← block budget
          pure (.ifElse condition consequence (some alternative))
        else
          pure (.ifElse condition consequence none)
      | .function => do
        symbol .leftParen
        let parameters ← elements name budget
        symbol .leftBrace
        let body ← block budget
        pure (.fn parameters body)
      | .illegal => reject (.illegal token)
      | .nothing => reject (.noOperand token) := by
  rw [operand]
  cases token.kind with
  | symbol spelled => cases spelled <;> rfl
  | keyword word => cases word <;> rfl
  | _ => rfl

/-- A statement that is no binding and no return is an expression. -/
theorem statement_succ_of_expression {token : Token} (notLet : token.kind ≠ .keyword .letWord)
    (notReturn : token.kind ≠ .keyword .returnWord) :
    statement (budget + 1) token = expression budget .lowest token >>= fun value =>
      skipSemicolon >>= fun _ => pure (.expr value) := by
  rw [statement]
  split
  · next isLet => exact absurd isLet notLet
  · next isReturn => exact absurd isReturn notReturn
  · rfl

/-- A statement that begins with a broken operand is broken there. -/
theorem statement_of_operand {token : Token} {tape stopped : Tape} {stop : Stop}
    (notLet : token.kind ≠ .keyword .letWord) (notReturn : token.kind ≠ .keyword .returnWord)
    (isBroken : operand (budget + 1) token tape = .error stop stopped) :
    statement (budget + 3) token tape = .error stop stopped := by
  have isExpression : expression (budget + 2) .lowest token tape = .error stop stopped := by
    rw [expression_succ, bind_of_error isBroken]
  rw [statement_succ_of_expression _ notLet notReturn, bind_of_error isExpression]

end Parser

end Monkey
