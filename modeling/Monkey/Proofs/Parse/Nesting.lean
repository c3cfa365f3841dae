/-
# How deep rules are nested

A rule enters other rules, often on the very token that it was entered on itself, and at the end
of the tape taking a token does not go on. So the tokens ahead alone do not show that reading ends.
Each rule has a rank instead: four for every token that it has still before it, and a little more
or less for what it may enter before a token is taken. A rule that begins with the end mark has
nothing before it and enters nothing else than an operand, which rejects it.

Rules only enter rules of lower rank, so they are nested no deeper than the rank of the first of
them. The loops over continuations, elements and statements are rules that enter themselves here,
and every turn of a loop counts as a level. The budget is spent on nothing else than levels, and
so a budget as large as the rank of a rule is never spent by it.
-/

import Monkey.Proofs.Parse.Mirror
import Monkey.Proofs.Parse.Settles
import Monkey.Proofs.Parse.Stops

namespace Monkey

namespace Parser

/-- What reading from a token on may cost: nothing at the end, four units for that token and
for each one behind it otherwise. -/
def cost (token : Token) (tape : Tape) : Nat :=
  if token.kind = .eof then 0 else 4 * (tape.ahead.length + 1)

theorem length_take (tape : Tape) : tape.take.ahead.length = tape.ahead.length - 1 :=
  List.length_tail

/-- Only at the end of a tape is there nothing but the end mark. -/
theorem length_pos_of_peek {tape : Tape} (notEnd : tape.peek.kind ≠ .eof) :
    0 < tape.ahead.length := by
  rw [List.length_pos_iff]
  intro isEmpty
  apply notEnd
  rw [Tape.peek, isEmpty]
  rfl

theorem cost_take_le (tape : Tape) : cost tape.peek tape.take ≤ 4 * tape.ahead.length := by
  rw [cost, length_take]
  split
  · exact Nat.zero_le _
  · next notEnd =>
      have positive := length_pos_of_peek notEnd
      omega

/-- The rules that may enter others, with what each of them is given. -/
inductive Rule
  | statement (token : Token)
  | expression (level : Level) (token : Token)
  | operand (token : Token)
  | extend (level : Level) (left : Expr)
  | moreNames
  | moreArguments
  | block

namespace Rule

/-- What a rule reads. -/
abbrev Answer : Rule → Type
  | statement _ => Stmt
  | expression _ _ => Expr
  | operand _ => Expr
  | extend _ _ => Expr
  | moreNames => List String
  | moreArguments => List Expr
  | block => Block

/-- The rule, with a budget. -/
def run (budget : Nat) : (rule : Rule) → Parser rule.Answer
  | statement token => Parser.statement budget token
  | expression level token => Parser.expression budget level token
  | operand token => Parser.operand budget token
  | extend level left => Parser.extend budget level left
  | moreNames => moreElements name budget
  | moreArguments => moreElements (do Parser.expression budget .lowest (← take)) budget
  | block => Parser.block budget

/-- A bound for what a rule may still enter. -/
def rank : Rule → Tape → Nat
  | statement token, tape => cost token tape + 3
  | expression _ token, tape => cost token tape + 2
  | operand token, tape => cost token tape + 1
  | extend _ _, tape => 4 * tape.ahead.length + 1
  | moreNames, tape => 4 * tape.ahead.length + 1
  | moreArguments, tape => 4 * tape.ahead.length + 2
  | block, tape => 4 * tape.ahead.length + 4

end Rule

/-- A rule on one tape enters a rule on another one: the tokens that the first has taken by then
are there, and what it has entered before has been read. -/
inductive Enters : Rule → Tape → Rule → Tape → Prop
  | boundValue {token : Token} {tape : Tape} {bound : String}
    (isLet : token.kind = .keyword .letWord) (isName : tape.peek.kind = .ident bound)
    (isAssign : tape.take.peek.kind = .symbol .assign) :
    Enters (.statement token) tape (.expression .lowest tape.take.take.peek) tape.take.take.take
  | returnedValue {token : Token} {tape : Tape} (isReturn : token.kind = .keyword .returnWord) :
    Enters (.statement token) tape (.expression .lowest tape.peek) tape.take
  | value {token : Token} {tape : Tape} (notLet : token.kind ≠ .keyword .letWord)
    (notReturn : token.kind ≠ .keyword .returnWord) :
    Enters (.statement token) tape (.expression .lowest token) tape
  | firstOperand {level : Level} {token : Token} {tape : Tape} :
    Enters (.expression level token) tape (.operand token) tape
  | continuations {level : Level} {token : Token} {tape middle : Tape} {left : Expr}
    (isOperand : Settles (fun budget => operand budget token) tape left middle) :
    Enters (.expression level token) tape (.extend level left) middle
  | prefixed {token : Token} {tape : Tape} {op : PrefixOp}
    (isStart : token.kind.start = .prefixOp op) :
    Enters (.operand token) tape (.expression .prefixOp tape.peek) tape.take
  | grouped {token : Token} {tape : Tape} (isStart : token.kind.start = .group) :
    Enters (.operand token) tape (.expression .lowest tape.peek) tape.take
  | condition {token : Token} {tape : Tape} (isStart : token.kind.start = .conditional)
    (isParen : tape.peek.kind = .symbol .leftParen) :
    Enters (.operand token) tape (.expression .lowest tape.take.peek) tape.take.take
  | consequence {token : Token} {tape middle : Tape} {condition : Expr}
    (isStart : token.kind.start = .conditional) (isParen : tape.peek.kind = .symbol .leftParen)
    (isCondition : Settles (fun budget => expression budget .lowest tape.take.peek) tape.take.take
      condition middle)
    (isClosing : middle.peek.kind = .symbol .rightParen)
    (isBrace : middle.take.peek.kind = .symbol .leftBrace) :
    Enters (.operand token) tape .block middle.take.take
  | alternative {token : Token} {tape middle last : Tape} {condition : Expr} {consequence : Block}
    (isStart : token.kind.start = .conditional) (isParen : tape.peek.kind = .symbol .leftParen)
    (isCondition : Settles (fun budget => expression budget .lowest tape.take.peek) tape.take.take
      condition middle)
    (isClosing : middle.peek.kind = .symbol .rightParen)
    (isBrace : middle.take.peek.kind = .symbol .leftBrace)
    (isConsequence : Settles block middle.take.take consequence last)
    (isElse : last.peek.kind = .keyword .elseWord)
    (isOtherBrace : last.take.peek.kind = .symbol .leftBrace) :
    Enters (.operand token) tape .block last.take.take
  | parameters {token : Token} {tape : Tape} {first : String}
    (isStart : token.kind.start = .function) (isParen : tape.peek.kind = .symbol .leftParen)
    (isName : tape.take.peek.kind = .ident first) :
    Enters (.operand token) tape .moreNames tape.take.take
  | body {token : Token} {tape middle : Tape} {parameters : List String}
    (isStart : token.kind.start = .function) (isParen : tape.peek.kind = .symbol .leftParen)
    (areNames : Settles (fun budget => elements name budget) tape.take parameters middle)
    (isBrace : middle.peek.kind = .symbol .leftBrace) :
    Enters (.operand token) tape .block middle.take
  | rightOperand {level : Level} {left : Expr} {tape : Tape} {op : InfixOp}
    (isOperator : tape.peek.kind.continuationAbove? level = some (.operator op)) :
    Enters (.extend level left) tape (.expression op.level tape.take.peek) tape.take.take
  | behindOperator {level : Level} {left right : Expr} {tape middle : Tape} {op : InfixOp}
    (isOperator : tape.peek.kind.continuationAbove? level = some (.operator op))
    (isRight : Settles (fun budget => expression budget op.level tape.take.peek) tape.take.take
      right middle) :
    Enters (.extend level left) tape (.extend level (.infixOp op left right)) middle
  | firstArgument {level : Level} {left : Expr} {tape : Tape}
    (isCall : tape.peek.kind.continuationAbove? level = some .call)
    (notParen : tape.take.peek.kind ≠ .symbol .rightParen) :
    Enters (.extend level left) tape (.expression .lowest tape.take.peek) tape.take.take
  | moreArguments {level : Level} {left first : Expr} {tape middle : Tape}
    (isCall : tape.peek.kind.continuationAbove? level = some .call)
    (notParen : tape.take.peek.kind ≠ .symbol .rightParen)
    (isFirst : Settles (fun budget => expression budget .lowest tape.take.peek) tape.take.take
      first middle) :
    Enters (.extend level left) tape .moreArguments middle
  | behindCall {level : Level} {left : Expr} {arguments : List Expr} {tape middle : Tape}
    (isCall : tape.peek.kind.continuationAbove? level = some .call)
    (areArguments : Settles
      (fun budget => elements (do expression budget .lowest (← take)) budget) tape.take
      arguments middle) :
    Enters (.extend level left) tape (.extend level (.call left arguments)) middle
  | laterNames {tape : Tape} {first : String} (isComma : tape.peek.kind = .symbol .comma)
    (isName : tape.take.peek.kind = .ident first) :
    Enters .moreNames tape .moreNames tape.take.take
  | nextArgument {tape : Tape} (isComma : tape.peek.kind = .symbol .comma) :
    Enters .moreArguments tape (.expression .lowest tape.take.peek) tape.take.take
  | laterArguments {tape middle : Tape} {first : Expr}
    (isComma : tape.peek.kind = .symbol .comma)
    (isFirst : Settles (fun budget => expression budget .lowest tape.take.peek) tape.take.take
      first middle) :
    Enters .moreArguments tape .moreArguments middle
  | firstStatement {tape : Tape} (notBrace : tape.peek.kind ≠ .symbol .rightBrace)
    (notEnd : tape.peek.kind ≠ .eof) :
    Enters .block tape (.statement tape.peek) tape.take
  | laterStatements {tape middle : Tape} {first : Stmt}
    (notBrace : tape.peek.kind ≠ .symbol .rightBrace) (notEnd : tape.peek.kind ≠ .eof)
    (isFirst : Settles (fun budget => statement budget tape.peek) tape.take first middle) :
    Enters .block tape .block middle

/-- The last rule is entered from the first one through so many levels. -/
inductive Nested : Nat → Rule → Tape → Rule → Tape → Prop
  | here {rule : Rule} {tape : Tape} : Nested 0 rule tape rule tape
  | enter {depth : Nat} {rule inner last : Rule} {tape place stop : Tape}
    (enters : Enters rule tape inner place) (deeper : Nested depth inner place last stop) :
    Nested (depth + 1) rule tape last stop

section

variable {takes : Kind → Prop} {Judged : Judgement} {budget more : Nat}
  (discipline : Discipline .anywhere id takes Judged)

include discipline

/-- A judgement that supposes nothing of places holds of every rule, with any token. -/
theorem Rule.judged (of_begins : ∀ {α : Type} {token : Token} {first second : Parser α}
      {tape : Tape} {goal : Tape → Prop},
      BeginsWith id Judged token first second tape goal → Judged first second tape)
    (rule : Rule) (enough : budget ≤ more) (tape : Tape) :
    Judged (rule.run budget) (rule.run more) tape := by
  have rules := discipline.rules enough
  have inside := Stages.anywhere_inside tape
  cases rule with
  | statement token => exact of_begins (rules.statement (Stages.anywhere_taken token tape))
  | expression level token =>
      exact of_begins (rules.expression level (Stages.anywhere_taken token tape))
  | operand token => exact of_begins (rules.operand (Stages.anywhere_taken token tape))
  | extend level left => exact (rules.extend level left inside).judged
  | moreNames => exact (discipline.moreElements discipline.name enough inside).judged
  | moreArguments =>
      exact (discipline.moreElements (rules.nextExpression discipline .lowest) enough inside).judged
  | block => exact (rules.block (Stages.anywhere_atStart 1 tape)).judged

theorem judged_names (enough : budget ≤ more) (tape : Tape) :
    Judged (elements name budget) (elements name more) tape :=
  (discipline.elements discipline.name enough (Stages.anywhere_inside tape)).judged

theorem judged_arguments (enough : budget ≤ more) (tape : Tape) :
    Judged (elements (do expression budget .lowest (← take)) budget)
      (elements (do expression more .lowest (← take)) more) tape := by
  have rules := discipline.rules enough
  have inside := Stages.anywhere_inside tape
  exact (discipline.elements (rules.nextExpression discipline .lowest) enough inside).judged

end

/-! ## Ranks -/

section

variable {α : Type} {tape after : Tape} {token : Token}

/-- Every rule moves by taking tokens. -/
theorem Rule.takes (rule : Rule) (budget : Nat) (tape : Tape) :
    tape.Takes (endPlace (rule.run budget tape)) :=
  rule.judged Moves.discipline Moves.of_begins (Nat.le_refl budget) tape

/-- What a rule settles on is not further back. -/
theorem Settles.length_le {rule : Nat → Parser α} {result : α}
    (settles : Settles rule tape result after)
    (moves : ∀ budget, Moves (rule budget) (rule budget) tape) :
    after.ahead.length ≤ tape.ahead.length := by
  obtain ⟨budget, isOk⟩ := settles.exists
  have takes := moves budget
  rw [Moves, isOk] at takes
  exact takes.length_le

theorem Rule.length_le (rule : Rule) {result : rule.Answer}
    (settles : Settles (fun budget => rule.run budget) tape result after) :
    after.ahead.length ≤ tape.ahead.length :=
  settles.length_le fun budget => rule.takes budget tape

theorem length_le_of_names {names : List String}
    (settles : Settles (fun budget => elements name budget) tape names after) :
    after.ahead.length ≤ tape.ahead.length :=
  settles.length_le fun _ => judged_names Moves.discipline (Nat.le_refl _) tape

theorem length_le_of_arguments {arguments : List Expr}
    (settles : Settles (fun budget => elements (do expression budget .lowest (← take)) budget)
      tape arguments after) :
    after.ahead.length ≤ tape.ahead.length :=
  settles.length_le fun _ => judged_arguments Moves.discipline (Nat.le_refl _) tape

/-- Only the end mark costs nothing, and no operand begins with it. -/
theorem cost_of_start {start : Start} (isStart : token.kind.start = start)
    (starts : start ≠ .nothing) (tape : Tape) :
    cost token tape = 4 * (tape.ahead.length + 1) := by
  apply if_neg
  rintro isEnd
  rw [isEnd] at isStart
  exact starts isStart.symm

theorem starts_of_operand {left : Expr}
    (settles : Settles (fun budget => operand budget token) tape left after) :
    token.kind.start ≠ .nothing := by
  intro isNothing
  obtain ⟨least, settled⟩ := Filter.eventually_atTop.mp settles
  have isOk : operand (least + 1) token tape = .ok left after := settled _ (Nat.le_succ least)
  rw [operand_succ, isNothing] at isOk
  cases isOk

theorem length_pos_of_continuation {level : Level} {continuation : Continuation}
    (isNext : tape.peek.kind.continuationAbove? level = some continuation) :
    0 < tape.ahead.length := by
  apply length_pos_of_peek
  intro atEnd
  rw [atEnd] at isNext
  cases isNext

end

/-- A rule enters only rules of lower rank. -/
theorem Enters.rank_lt {rule inner : Rule} {tape place : Tape}
    (enters : Enters rule tape inner place) : inner.rank place < rule.rank tape := by
  have next (tape : Tape) : cost tape.peek tape.take ≤ 4 * tape.ahead.length := cost_take_le tape
  have taken (tape : Tape) : tape.take.ahead.length = tape.ahead.length - 1 := length_take tape
  -- a rule either enters another on its own token, or has a token to spare for what it enters
  cases enters with
  | @boundValue token _ _ isLet _ _ =>
      have isCost : cost token tape = 4 * (tape.ahead.length + 1) := if_neg (by simp [isLet])
      have isNext := next tape.take.take
      simp only [Rule.rank, taken] at isNext ⊢
      omega
  | @returnedValue token _ isReturn =>
      have isCost : cost token tape = 4 * (tape.ahead.length + 1) := if_neg (by simp [isReturn])
      have isNext := next tape
      simp only [Rule.rank]
      omega
  | value notLet notReturn => exact Nat.lt_succ_self _
  | firstOperand => exact Nat.lt_succ_self _
  | continuations isOperand =>
      -- the operand has been read, so it did not begin with the end mark, which would cost nothing
      have isCost := cost_of_start rfl (starts_of_operand isOperand) tape
      have few := (Rule.operand _).length_le isOperand
      simp only [Rule.rank]
      omega
  | prefixed isStart =>
      have isCost := cost_of_start isStart (by simp) tape
      have isNext := next tape
      simp only [Rule.rank]
      omega
  | grouped isStart =>
      have isCost := cost_of_start isStart (by simp) tape
      have isNext := next tape
      simp only [Rule.rank]
      omega
  | condition isStart isParen =>
      have isCost := cost_of_start isStart (by simp) tape
      have isNext := next tape.take
      simp only [Rule.rank, taken] at isNext ⊢
      omega
  | consequence isStart isParen isCondition isClosing isBrace =>
      have isCost := cost_of_start isStart (by simp) tape
      have few := (Rule.expression _ _).length_le isCondition
      simp only [Rule.rank, taken] at few ⊢
      omega
  | alternative isStart isParen isCondition isClosing isBrace isConsequence isElse isOtherBrace =>
      have isCost := cost_of_start isStart (by simp) tape
      have few := (Rule.expression _ _).length_le isCondition
      have fewer := Rule.block.length_le isConsequence
      simp only [Rule.rank, taken] at few fewer ⊢
      omega
  | parameters isStart isParen isName =>
      have isCost := cost_of_start isStart (by simp) tape
      simp only [Rule.rank, taken]
      omega
  | body isStart isParen areNames isBrace =>
      have isCost := cost_of_start isStart (by simp) tape
      have few := length_le_of_names areNames
      simp only [Rule.rank, taken] at few ⊢
      omega
  | rightOperand isOperator =>
      have nonempty := length_pos_of_continuation isOperator
      have isNext := next tape.take
      simp only [Rule.rank, taken] at isNext ⊢
      omega
  | behindOperator isOperator isRight =>
      have nonempty := length_pos_of_continuation isOperator
      have few := (Rule.expression _ _).length_le isRight
      simp only [Rule.rank, taken] at few ⊢
      omega
  | firstArgument isCall notParen =>
      have nonempty := length_pos_of_continuation isCall
      have isNext := next tape.take
      simp only [Rule.rank, taken] at isNext ⊢
      omega
  | moreArguments isCall notParen isFirst =>
      have nonempty := length_pos_of_continuation isCall
      have few := (Rule.expression _ _).length_le isFirst
      simp only [Rule.rank, taken] at few ⊢
      omega
  | behindCall isCall areArguments =>
      have nonempty := length_pos_of_continuation isCall
      have few := length_le_of_arguments areArguments
      simp only [Rule.rank, taken] at few ⊢
      omega
  | laterNames isComma isName =>
      have nonempty : 0 < tape.ahead.length := length_pos_of_peek (by simp [isComma])
      simp only [Rule.rank, taken]
      omega
  | nextArgument isComma =>
      have nonempty : 0 < tape.ahead.length := length_pos_of_peek (by simp [isComma])
      have isNext := next tape.take
      simp only [Rule.rank, taken] at isNext ⊢
      omega
  | laterArguments isComma isFirst =>
      have nonempty : 0 < tape.ahead.length := length_pos_of_peek (by simp [isComma])
      have few := (Rule.expression _ _).length_le isFirst
      simp only [Rule.rank, taken] at few ⊢
      omega
  | firstStatement notBrace notEnd =>
      have nonempty := length_pos_of_peek notEnd
      have isNext := next tape
      simp only [Rule.rank]
      omega
  | laterStatements notBrace notEnd isFirst =>
      have nonempty := length_pos_of_peek notEnd
      have few := (Rule.statement _).length_le isFirst
      simp only [Rule.rank, taken] at few ⊢
      omega

/-- Through each level there is one less left of the rank. -/
theorem Nested.add_rank_le {depth : Nat} {rule last : Rule} {tape stop : Tape}
    (nested : Nested depth rule tape last stop) : depth + last.rank stop ≤ rule.rank tape := by
  induction nested with
  | here => rw [Nat.zero_add]
  | enter enters _ ih =>
      have lower := enters.rank_lt
      omega

/-- Four levels for each of the tokens ahead, and a few more, are more than any rule has. -/
theorem Rule.rank_le (rule : Rule) (tape : Tape) : rule.rank tape ≤ 4 * tape.ahead.length + 7 := by
  have cost_le (token : Token) : cost token tape ≤ 4 * tape.ahead.length + 4 := by
    rw [cost]
    split <;> omega
  cases rule with
  | statement token => exact Nat.add_le_add_right (cost_le token) 3
  | expression level token => exact Nat.le_succ_of_le (Nat.add_le_add_right (cost_le token) 2)
  | operand token =>
      have cheap := cost_le token
      rw [rank]
      omega
  | _ => simp only [rank]; omega

theorem Rule.rank_pos (rule : Rule) (tape : Tape) : 0 < rule.rank tape := by
  cases rule <;> exact Nat.succ_pos _

/-! ## What the budget is spent on -/

/-- If the budget of the rule is spent, then for this reason. -/
def SpentBy {α : Type} (rule : Parser α) (tape : Tape) (reason : Prop) : Prop :=
  ∀ stopped, rule tape = .error .exhausted stopped → reason

namespace SpentBy

variable {α β : Type} {tape : Tape} {reason : Prop}

theorem bind {first : Parser α} {second : α → Parser β} (isFirst : SpentBy first tape reason)
    (isSecond : ∀ result middle, first tape = .ok result middle →
      SpentBy (second result) middle reason) : SpentBy (first >>= second) tape reason := by
  intro stopped isSpent
  cases reached : first tape with
  | ok result middle =>
      rw [bind_of_ok reached] at isSpent
      exact isSecond result middle reached stopped isSpent
  | error stop place =>
      rw [bind_of_error reached] at isSpent
      cases isSpent
      exact isFirst _ reached

theorem value (result : α) : SpentBy (pure result) tape reason := by
  intro stopped isSpent
  cases isSpent

theorem reject (diagnostic : Diagnostic) : SpentBy (reject diagnostic : Parser α) tape reason := by
  intro stopped isSpent
  cases isSpent

theorem peekBind {second : Token → Parser β} (isSecond : SpentBy (second tape.peek) tape reason) :
    SpentBy (peek >>= second) tape reason := isSecond

theorem takeBind {second : Token → Parser β}
    (isSecond : SpentBy (second tape.peek) tape.take reason) :
    SpentBy (take >>= second) tape reason := isSecond

/-- A symbol that is asked for comes next, or nothing else is read. -/
theorem symbolBind {spelled : Symbol} {second : Unit → Parser β}
    (isSecond : tape.peek.kind = .symbol spelled → SpentBy (second ()) tape.take reason) :
    SpentBy (symbol spelled >>= second) tape reason := by
  rw [SpentBy]
  by_cases isSymbol : tape.peek.kind = .symbol spelled
  · rw [bind_of_ok (by rw [symbol_apply, if_pos isSymbol])]
    exact isSecond isSymbol
  · rw [bind_of_error (by rw [symbol_apply, if_neg isSymbol])]
    intro stopped isSpent
    cases isSpent

theorem name : SpentBy name tape reason := by
  rw [Parser.name]
  apply peekBind
  split
  · exact takeBind (value _)
  · exact reject _

theorem nameBind {second : String → Parser β}
    (isSecond : ∀ bound, tape.peek.kind = .ident bound → SpentBy (second bound) tape.take reason) :
    SpentBy (Parser.name >>= second) tape reason := by
  refine bind name fun bound middle isOk => ?_
  obtain ⟨isIdent, rfl⟩ := ident_of_name isOk
  exact isSecond bound isIdent

/-- The semicolon behind a statement needs no budget. -/
theorem ended (result : α) :
    SpentBy (do skipSemicolon; pure result) tape reason := by
  intro stopped isSpent
  cases isSpent

/-- Of elements the first is read, and then the others. -/
theorem elements {element : Parser α} {budget : Nat}
    (isFirst : tape.peek.kind ≠ .symbol .rightParen → SpentBy element tape reason)
    (areOthers : tape.peek.kind ≠ .symbol .rightParen → ∀ first middle,
      element tape = .ok first middle → SpentBy (moreElements element budget) middle reason) :
    SpentBy (elements element budget) tape reason := by
  rw [Parser.elements]
  apply peekBind
  split
  · exact takeBind (value _)
  · next notParen =>
      apply bind (isFirst notParen)
      intro first middle isOk
      exact bind (areOthers notParen first middle isOk) fun _ _ _ => value _

end SpentBy

/-- The rule enters others through at least so many levels. -/
def Deep (levels : Nat) (rule : Rule) (tape : Tape) : Prop :=
  ∃ depth last stop, levels ≤ depth ∧ Nested depth rule tape last stop

theorem Deep.mono {levels fewer : Nat} {rule : Rule} {tape : Tape} (deep : Deep levels rule tape)
    (enough : fewer ≤ levels) : Deep fewer rule tape := by
  obtain ⟨depth, last, stop, deeper, nested⟩ := deep
  exact ⟨depth, last, stop, Nat.le_trans enough deeper, nested⟩

theorem Deep.here {rule : Rule} {tape : Tape} : Deep 0 rule tape :=
  ⟨0, rule, tape, Nat.le_refl 0, .here⟩

theorem Deep.enter {levels : Nat} {rule inner : Rule} {tape place : Tape}
    (enters : Enters rule tape inner place) (deep : Deep levels inner place) :
    Deep (levels + 1) rule tape := by
  obtain ⟨depth, last, stop, enough, nested⟩ := deep
  exact ⟨depth + 1, last, stop, Nat.succ_le_succ enough, .enter enters nested⟩

/-- With a larger budget a rule that succeeds does so alike. -/
theorem Settles.of_ok {α : Type} (rule : Nat → Parser α) {budget : Nat} {tape after : Tape}
    {result : α} (isOk : rule budget tape = .ok result after)
    (mirrors : ∀ more, budget ≤ more → Mirrors id (rule budget) (rule more) tape) :
    Settles rule tape result after := by
  refine Filter.eventually_atTop.mpr ⟨budget, fun more enough => ?_⟩
  rw [(mirrors more enough).eq (by simp [isOk]), isOk]

theorem Rule.mirrors (rule : Rule) {budget more : Nat} (enough : budget ≤ more) (tape : Tape) :
    Mirrors id (rule.run budget) (rule.run more) tape :=
  rule.judged (Mirrors.discipline fun _ => rfl) Mirrors.of_begins enough tape

theorem Rule.settles (rule : Rule) {budget : Nat} {tape after : Tape} {result : rule.Answer}
    (isOk : rule.run budget tape = .ok result after) :
    Settles (fun budget => rule.run budget) tape result after :=
  .of_ok (fun budget => rule.run budget) isOk fun _ enough => rule.mirrors enough tape

theorem settles_of_names {names : List String} {budget : Nat} {tape after : Tape}
    (isOk : elements name budget tape = .ok names after) :
    Settles (fun budget => elements name budget) tape names after := by
  apply Settles.of_ok (fun budget => elements name budget) isOk
  exact fun more enough => judged_names (Mirrors.discipline fun _ => rfl) enough tape

theorem settles_of_arguments {arguments : List Expr} {budget : Nat} {tape after : Tape}
    (isOk : elements (do expression budget .lowest (← take)) budget tape = .ok arguments after) :
    Settles (fun budget => elements (do expression budget .lowest (← take)) budget) tape arguments
      after := by
  apply Settles.of_ok (fun budget => elements (do expression budget .lowest (← take)) budget) isOk
  exact fun more enough => judged_arguments (Mirrors.discipline fun _ => rfl) enough tape

/-- Rules spend this budget on levels alone. -/
def Explained (budget : Nat) : Prop :=
  ∀ rule tape, SpentBy (Rule.run budget rule) tape (Deep budget rule tape)

namespace Explained

variable {budget : Nat} (explained : Explained budget)

include explained

theorem enter {rule inner : Rule} {tape place : Tape} (enters : Enters rule tape inner place) :
    SpentBy (inner.run budget) place (Deep (budget + 1) rule tape) := by
  intro stopped isSpent
  exact .enter enters (explained inner place stopped isSpent)

theorem statement_succ (token : Token) (tape : Tape) :
    SpentBy (Parser.statement (budget + 1) token) tape
      (Deep (budget + 1) (.statement token) tape) := by
  rw [Parser.statement]
  split
  · next isLet =>
      apply SpentBy.nameBind
      intro bound isName
      apply SpentBy.symbolBind
      intro isAssign
      apply SpentBy.takeBind
      apply (explained.enter (.boundValue isLet isName isAssign)).bind
      exact fun _ _ _ => .ended _
  · next isReturn =>
      apply SpentBy.takeBind
      apply (explained.enter (.returnedValue isReturn)).bind
      exact fun _ _ _ => .ended _
  · next notLet notReturn =>
      apply (explained.enter (.value notLet notReturn)).bind
      exact fun _ _ _ => .ended _

theorem expression_succ (level : Level) (token : Token) (tape : Tape) :
    SpentBy (Parser.expression (budget + 1) level token) tape
      (Deep (budget + 1) (.expression level token) tape) := by
  rw [Parser.expression_succ]
  apply (explained.enter .firstOperand).bind
  intro left middle isOk
  exact explained.enter (.continuations ((Rule.operand token).settles isOk))

theorem operand_succ (token : Token) (tape : Tape) :
    SpentBy (Parser.operand (budget + 1) token) tape
      (Deep (budget + 1) (.operand token) tape) := by
  rw [Parser.operand_succ]
  cases isStart : token.kind.start with
  | ident name => exact .value _
  | int digits =>
      dsimp only
      rw [integer]
      split
      · exact .value _
      · exact .reject _
  | bool value => exact .value _
  | prefixOp op =>
      apply SpentBy.takeBind
      exact (explained.enter (.prefixed isStart)).bind fun _ _ _ => .value _
  | group =>
      apply SpentBy.takeBind
      apply (explained.enter (.grouped isStart)).bind
      intro inner middle _
      exact .symbolBind fun _ => .value _
  | conditional =>
      apply SpentBy.symbolBind
      intro isParen
      apply SpentBy.takeBind
      apply (explained.enter (.condition isStart isParen)).bind
      intro condition middle isOk
      have isCondition := (Rule.expression .lowest _).settles isOk
      apply SpentBy.symbolBind
      intro isClosing
      apply SpentBy.symbolBind
      intro isBrace
      apply (explained.enter (.consequence isStart isParen isCondition isClosing isBrace)).bind
      intro consequence last isOk
      have isConsequence := Rule.block.settles isOk
      apply SpentBy.peekBind
      split
      · next isElse =>
          apply SpentBy.takeBind
          apply SpentBy.symbolBind
          intro isOtherBrace
          have enters := Enters.alternative isStart isParen isCondition isClosing isBrace
            isConsequence isElse isOtherBrace
          exact (explained.enter enters).bind fun _ _ _ => .value _
      · exact .value _
  | function =>
      apply SpentBy.symbolBind
      intro isParen
      apply SpentBy.bind
      · apply SpentBy.elements
        · exact fun _ => .name
        · intro _ first middle isOk
          obtain ⟨isName, rfl⟩ := ident_of_name isOk
          exact explained.enter (.parameters isStart isParen isName)
      · intro parameters middle isOk
        apply SpentBy.symbolBind
        intro isBrace
        have enters := Enters.body isStart isParen (settles_of_names isOk) isBrace
        exact (explained.enter enters).bind fun _ _ _ => .value _
  | illegal => exact .reject _
  | nothing => exact .reject _

theorem extend_succ (level : Level) (left : Expr) (tape : Tape) :
    SpentBy (Parser.extend (budget + 1) level left) tape
      (Deep (budget + 1) (.extend level left) tape) := by
  rw [Parser.extend]
  apply SpentBy.peekBind
  split
  · exact .value left
  · next op isOperator =>
      apply SpentBy.takeBind
      apply SpentBy.takeBind
      apply (explained.enter (.rightOperand isOperator)).bind
      intro right middle isOk
      have isRight := (Rule.expression op.level _).settles isOk
      exact explained.enter (.behindOperator isOperator isRight)
  · next isCall =>
      apply SpentBy.takeBind
      apply SpentBy.bind
      · apply SpentBy.elements
        · intro notParen
          exact .takeBind (explained.enter (.firstArgument isCall notParen))
        · intro notParen first middle isOk
          have isFirst := (Rule.expression .lowest _).settles isOk
          exact explained.enter (.moreArguments isCall notParen isFirst)
      · intro arguments middle isOk
        exact explained.enter (.behindCall isCall (settles_of_arguments isOk))

theorem moreNames_succ (tape : Tape) :
    SpentBy (moreElements name (budget + 1)) tape (Deep (budget + 1) .moreNames tape) := by
  rw [moreElements]
  apply SpentBy.peekBind
  split
  · next isComma =>
      apply SpentBy.takeBind
      apply SpentBy.nameBind
      intro first isName
      exact (explained.enter (.laterNames isComma isName)).bind fun _ _ _ => .value _
  · exact .symbolBind fun _ => .value _

theorem block_succ (tape : Tape) :
    SpentBy (Parser.block (budget + 1)) tape (Deep (budget + 1) .block tape) := by
  rw [Parser.block]
  apply SpentBy.takeBind
  split
  · exact .value []
  · exact .reject _
  · next notBrace notEnd =>
      apply (explained.enter (.firstStatement notBrace notEnd)).bind
      intro first middle isOk
      have isFirst := (Rule.statement _).settles isOk
      exact (explained.enter (.laterStatements notBrace notEnd isFirst)).bind fun _ _ _ => .value _

end Explained

/-- Arguments have a budget for their number, besides the one that each of them has. -/
theorem spentBy_moreArguments {budget : Nat}
    (isArgument : ∀ token tape, SpentBy (expression budget .lowest token) tape
      (Deep budget (.expression .lowest token) tape))
    {count : Nat} (few : count ≤ budget) (tape : Tape) :
    SpentBy (moreElements (do expression budget .lowest (← take)) count) tape
      (Deep count .moreArguments tape) := by
  induction count generalizing tape with
  | zero => exact fun _ _ => .here
  | succ count ih =>
      rw [moreElements]
      apply SpentBy.peekBind
      split
      · next isComma =>
          apply SpentBy.takeBind
          apply SpentBy.bind
          · apply SpentBy.takeBind
            intro stopped isSpent
            -- an argument has the whole budget, which is more than is left of the count
            have deep := isArgument _ _ stopped isSpent
            exact (deep.mono (Nat.le_of_succ_le few)).enter (.nextArgument isComma)
          · intro first middle isOk
            have isFirst := (Rule.expression .lowest _).settles isOk
            apply SpentBy.bind
            · intro stopped isSpent
              have deep := ih (Nat.le_of_succ_le few) middle stopped isSpent
              exact deep.enter (.laterArguments isComma isFirst)
            · exact fun _ _ _ => .value _
      · exact .symbolBind fun _ => .value _

/-- A rule whose budget is spent enters others through as many levels as the budget had units. -/
theorem explained (budget : Nat) : Explained budget := by
  induction budget with
  | zero => exact fun rule tape stopped _ => .here
  | succ budget ih =>
      intro rule tape
      cases rule with
      | statement token => exact ih.statement_succ token tape
      | expression level token => exact ih.expression_succ level token tape
      | operand token => exact ih.operand_succ token tape
      | extend level left => exact ih.extend_succ level left tape
      | moreNames => exact ih.moreNames_succ tape
      | moreArguments =>
          apply spentBy_moreArguments _ (Nat.le_refl _) tape
          exact fun token tape => ih.expression_succ .lowest token tape
      | block => exact ih.block_succ tape

/-- A budget as large as its rank is never spent by a rule. -/
theorem Rule.run_ne_exhausted (rule : Rule) {tape stopped : Tape} {budget : Nat}
    (enough : rule.rank tape ≤ budget) : rule.run budget tape ≠ .error .exhausted stopped := by
  intro isSpent
  obtain ⟨depth, last, stop, isDeep, nested⟩ := explained budget rule tape stopped isSpent
  have isBound := nested.add_rank_le
  have positive := last.rank_pos stop
  omega

/-- With budget enough for the rank, how much there is of it makes no difference. -/
theorem Rule.run_eq (rule : Rule) {tape : Tape} {budget more : Nat}
    (enough : rule.rank tape ≤ budget) (larger : budget ≤ more) :
    rule.run more tape = rule.run budget tape :=
  (rule.mirrors larger tape).eq fun _ => rule.run_ne_exhausted enough

end Parser

end Monkey
