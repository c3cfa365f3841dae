/-
# Reading with enough budget

What a rule comes to on some tokens does not depend on its budget, as long as that is
large enough. Saying so of every large enough budget leaves open how large it is, and
then rules follow one another without any count of what they spend.
-/

import Mathlib.Order.Filter.AtTopBot.Basic
import Monkey.Proofs.Parse.Steps

namespace Monkey

namespace Parser

/-- With every large enough budget, the rule answers this and stops there. -/
def Settles {α : Type} (rule : Nat → Parser α) (tape : Tape) (result : α) (after : Tape) : Prop :=
  ∀ᶠ budget in Filter.atTop, rule budget tape = .ok result after

namespace Settles

variable {α β : Type} {tape middle after : Tape}

/-- It is enough to look at budgets that have one unit to pass on. -/
theorem of_succ {rule : Nat → Parser α} {result : α}
    (settles : Settles (fun budget => rule (budget + 1)) tape result after) :
    Settles rule tape result after := by
  obtain ⟨least, settled⟩ := Filter.eventually_atTop.mp settles
  apply Filter.eventually_atTop.mpr
  use least + 1
  intro budget enough
  obtain ⟨budget, rfl⟩ := Nat.exists_eq_add_one_of_ne_zero (Nat.ne_zero_of_lt enough)
  exact settled budget (Nat.le_of_succ_le_succ enough)

/-- A large enough budget is large enough for both of two rules. -/
theorem bind {first : Nat → Parser α} {second : Nat → α → Parser β} {result : α} {answer : β}
    (isFirst : Settles first tape result middle)
    (isSecond : Settles (fun budget => second budget result) middle answer after) :
    Settles (fun budget => first budget >>= second budget) tape answer after := by
  filter_upwards [isFirst, isSecond] with budget isFirst isSecond
  rw [bind_of_ok isFirst, isSecond]

theorem value (result : α) : Settles (fun _ => pure result) tape result tape := by
  filter_upwards with budget
  rfl

theorem takeBind {second : Nat → Token → Parser β} {answer : β}
    (isSecond : Settles (fun budget => second budget tape.peek) tape.take answer after) :
    Settles (fun budget => take >>= second budget) tape answer after := isSecond

theorem peekBind {second : Nat → Token → Parser β} {answer : β}
    (isSecond : Settles (fun budget => second budget tape.peek) tape answer after) :
    Settles (fun budget => peek >>= second budget) tape answer after := isSecond

theorem symbol {spelled : Symbol} (isSymbol : tape.peek.kind = .symbol spelled) :
    Settles (fun _ => symbol spelled) tape () tape.take := by
  filter_upwards with budget
  rw [symbol_apply, if_pos isSymbol]

theorem name {bound : String} (isName : tape.peek.kind = .ident bound) :
    Settles (fun _ => name) tape bound tape.take := by
  filter_upwards with budget
  rw [Parser.name, peek_bind, isName]
  rfl

theorem skipSemicolon : Settles (fun _ => skipSemicolon) tape () tape.skipSemicolon := by
  filter_upwards with budget
  rfl

/-! ## Elements -/

/-- A list of elements has a budget of its own, which is for their number. -/
def Elements (element : Nat → Parser α) (tape : Tape) (items : List α) (after : Tape) : Prop :=
  ∀ᶠ budget in Filter.atTop, ∀ count, items.length < count →
    moreElements (element budget) count tape = .ok items after

/-- The closing parenthesis ends a list of elements. -/
theorem Elements.nil (element : Nat → Parser α)
    (isParen : tape.peek.kind = .symbol .rightParen) : Elements element tape [] tape.take := by
  filter_upwards with budget count enough
  obtain ⟨count, rfl⟩ := Nat.exists_eq_add_one_of_ne_zero (Nat.ne_zero_of_lt enough)
  rw [moreElements, peek_bind, isParen]
  show (Parser.symbol .rightParen >>= fun _ => pure []) tape = _
  rw [bind_of_ok (by rw [symbol_apply, if_pos isParen])]
  rfl

/-- A comma is followed by an element and by what follows that. -/
theorem Elements.cons {element : Nat → Parser α} {first : α} {others : List α}
    (isComma : tape.peek.kind = .symbol .comma)
    (isFirst : Settles element tape.take first middle)
    (areOthers : Elements element middle others after) :
    Elements element tape (first :: others) after := by
  filter_upwards [isFirst, areOthers] with budget isFirst areOthers count enough
  obtain ⟨count, rfl⟩ := Nat.exists_eq_add_one_of_ne_zero (Nat.ne_zero_of_lt enough)
  have isRead := areOthers count (Nat.lt_of_succ_lt_succ enough)
  rw [moreElements, peek_bind, isComma]
  show (take >>= fun _ => element budget >>= fun first =>
    moreElements (element budget) count >>= fun others => pure (first :: others)) tape = _
  rw [take_bind, bind_of_ok isFirst, bind_of_ok isRead]
  rfl

theorem noElements (element : Nat → Parser α) (isParen : tape.peek.kind = .symbol .rightParen) :
    Settles (fun budget => elements (element budget) budget) tape [] tape.take := by
  filter_upwards with budget
  rw [elements, peek_bind, isParen]
  rfl

theorem elements {element : Nat → Parser α} {first : α} {others : List α}
    (notParen : tape.peek.kind ≠ .symbol .rightParen)
    (isFirst : Settles element tape first middle)
    (areOthers : Elements element middle others after) :
    Settles (fun budget => elements (element budget) budget) tape (first :: others) after := by
  filter_upwards [isFirst, areOthers, Filter.eventually_gt_atTop others.length]
    with budget isFirst areOthers enough
  rw [Parser.elements, peek_bind, if_neg notParen, bind_of_ok isFirst,
    bind_of_ok (areOthers budget enough)]
  rfl

/-! ## Expressions and statements -/

/-- An expression is read by carrying on its first operand. -/
theorem expression {level : Level} {token : Token} {left result : Expr}
    (isOperand : Settles (fun budget => operand budget token) tape left middle)
    (isExtended : Settles (fun budget => extend budget level left) middle result after) :
    Settles (fun budget => expression budget level token) tape result after := by
  apply of_succ
  simp only [expression_succ]
  exact .bind isOperand isExtended

/-- An operand ends where nothing binds more tightly. -/
theorem extend {level : Level} (left : Expr)
    (ends : tape.peek.kind.continuationAbove? level = none) :
    Settles (fun budget => extend budget level left) tape left tape := by
  apply of_succ
  simp only [Parser.extend]
  apply peekBind
  simp only [ends]
  exact .value left

/-- One turn of the loop over continuations. -/
theorem extendOperator {level : Level} {op : InfixOp} {left right result : Expr}
    (isOperator : tape.peek.kind.continuationAbove? level = some (.operator op))
    (isRight : Settles (fun budget => Parser.expression budget op.level tape.take.peek)
      tape.take.take right middle)
    (isExtended : Settles (fun budget => Parser.extend budget level (.infixOp op left right))
      middle result after) :
    Settles (fun budget => Parser.extend budget level left) tape result after := by
  apply of_succ
  simp only [Parser.extend]
  apply peekBind
  simp only [isOperator]
  exact .takeBind (.takeBind (.bind isRight isExtended))

/-- A call is one turn of the loop as well. -/
theorem extendCall {level : Level} {callee result : Expr} {arguments : List Expr}
    (isCall : tape.peek.kind.continuationAbove? level = some .call)
    (areArguments : Settles
      (fun budget => Parser.elements (do Parser.expression budget .lowest (← take)) budget)
      tape.take arguments middle)
    (isExtended : Settles (fun budget => Parser.extend budget level (.call callee arguments))
      middle result after) :
    Settles (fun budget => Parser.extend budget level callee) tape result after := by
  apply of_succ
  simp only [Parser.extend]
  apply peekBind
  simp only [isCall]
  exact .takeBind (.bind areArguments isExtended)

section

variable {token : Token}

theorem prefixOp {op : PrefixOp} {inner : Expr} (isStart : token.kind.start = .prefixOp op)
    (isInner : Settles (fun budget => Parser.expression budget .prefixOp tape.peek) tape.take
      inner after) :
    Settles (fun budget => operand budget token) tape (.prefixOp op inner) after := by
  apply of_succ
  simp only [operand_succ, isStart]
  exact .takeBind (.bind isInner (.value _))

theorem group {inner : Expr} (isStart : token.kind.start = .group)
    (isInner : Settles (fun budget => Parser.expression budget .lowest tape.peek) tape.take
      inner middle)
    (isClosing : middle.peek.kind = .symbol .rightParen) :
    Settles (fun budget => operand budget token) tape inner middle.take := by
  apply of_succ
  simp only [operand_succ, isStart]
  exact .takeBind (.bind isInner (.bind (.symbol isClosing) (.value _)))

theorem function {parameters : List String} {body : Block}
    (isStart : token.kind.start = .function) (isParen : tape.peek.kind = .symbol .leftParen)
    (areNames : Settles (fun budget => Parser.elements Parser.name budget) tape.take parameters
      middle)
    (isBrace : middle.peek.kind = .symbol .leftBrace)
    (isBody : Settles block middle.take body after) :
    Settles (fun budget => operand budget token) tape (.fn parameters body) after := by
  apply of_succ
  simp only [operand_succ, isStart]
  apply bind (.symbol isParen)
  apply bind areNames
  apply bind (.symbol isBrace)
  exact .bind isBody (.value _)

variable {condition : Expr} {consequence : Block} {last : Tape}
  (isStart : token.kind.start = .conditional) (isParen : tape.peek.kind = .symbol .leftParen)
  (isCondition : Settles (fun budget => Parser.expression budget .lowest tape.take.peek)
    tape.take.take condition middle)
  (isClosing : middle.peek.kind = .symbol .rightParen)
  (isBrace : middle.take.peek.kind = .symbol .leftBrace)
  (isConsequence : Settles block middle.take.take consequence last)

include isStart isParen isCondition isClosing isBrace isConsequence

theorem ifThen (noElse : last.peek.kind ≠ .keyword .elseWord) :
    Settles (fun budget => operand budget token) tape (.ifElse condition consequence none)
      last := by
  apply of_succ
  simp only [operand_succ, isStart]
  apply bind (.symbol isParen)
  apply takeBind
  apply bind isCondition
  apply bind (.symbol isClosing)
  apply bind (.symbol isBrace)
  apply bind isConsequence
  apply peekBind
  simp only [if_neg noElse]
  exact .value _

theorem ifThenElse {alternative : Block} (isElse : last.peek.kind = .keyword .elseWord)
    (isOtherBrace : last.take.peek.kind = .symbol .leftBrace)
    (isAlternative : Settles block last.take.take alternative after) :
    Settles (fun budget => operand budget token) tape
      (.ifElse condition consequence (some alternative)) after := by
  apply of_succ
  simp only [operand_succ, isStart]
  apply bind (.symbol isParen)
  apply takeBind
  apply bind isCondition
  apply bind (.symbol isClosing)
  apply bind (.symbol isBrace)
  apply bind isConsequence
  apply peekBind
  simp only [if_pos isElse]
  apply takeBind
  apply bind (.symbol isOtherBrace)
  exact .bind isAlternative (.value _)

end

/-- A block ends at its closing brace. -/
theorem blockEnd (isBrace : tape.peek.kind = .symbol .rightBrace) :
    Settles block tape [] tape.take := by
  apply of_succ
  simp only [block]
  apply takeBind
  simp only [isBrace]
  exact .value []

/-- A block goes on for as long as something else than its closing brace is there. -/
theorem blockNext {first : Stmt} {others : Block}
    (notBrace : tape.peek.kind ≠ .symbol .rightBrace) (notEnd : tape.peek.kind ≠ .eof)
    (isFirst : Settles (fun budget => statement budget tape.peek) tape.take first middle)
    (areOthers : Settles block middle others after) :
    Settles block tape (first :: others) after := by
  apply of_succ
  simp only [block]
  apply takeBind
  split
  · next isBrace => exact absurd isBrace notBrace
  · next isEnd => exact absurd isEnd notEnd
  · exact .bind isFirst (.bind areOthers (.value _))

theorem letBind {token : Token} {bound : String} {value : Expr}
    (isLet : token.kind = .keyword .letWord) (isName : tape.peek.kind = .ident bound)
    (isAssign : tape.take.peek.kind = .symbol .assign)
    (isValue : Settles (fun budget => Parser.expression budget .lowest tape.take.take.peek)
      tape.take.take.take value after) :
    Settles (fun budget => statement budget token) tape (.letBind bound value)
      after.skipSemicolon := by
  apply of_succ
  simp only [Parser.statement, isLet]
  apply bind (.name isName)
  apply bind (.symbol isAssign)
  apply takeBind
  exact .bind isValue (.bind .skipSemicolon (.value _))

theorem ret {token : Token} {value : Expr} (isReturn : token.kind = .keyword .returnWord)
    (isValue : Settles (fun budget => Parser.expression budget .lowest tape.peek) tape.take value
      after) :
    Settles (fun budget => statement budget token) tape (.ret value) after.skipSemicolon := by
  apply of_succ
  simp only [Parser.statement, isReturn]
  apply takeBind
  exact .bind isValue (.bind .skipSemicolon (.value _))

/-- A statement that begins as an expression does is one. -/
theorem statement {token : Token} {value : Expr} (starts : token.kind.start ≠ .nothing)
    (isValue : Settles (fun budget => Parser.expression budget .lowest token) tape value after) :
    Settles (fun budget => statement budget token) tape (.expr value) after.skipSemicolon := by
  apply of_succ
  simp only [Parser.statement]
  split
  · next isLet => exact absurd (congrArg Kind.start isLet) starts
  · next isReturn => exact absurd (congrArg Kind.start isReturn) starts
  · exact .bind isValue (.bind .skipSemicolon (.value _))

end Settles

end Parser

end Monkey
