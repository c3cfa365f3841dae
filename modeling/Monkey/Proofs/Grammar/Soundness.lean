/-
# What is read is in the grammar

A rule that succeeds has passed the tokens of what it answers. A rule that rejects a token has
passed tokens that can be completed, so nothing is rejected too late. Both are shown together,
since a rule that stops has read some parts before: these are in the grammar, and the construct
that they belong to knows what is still missing.

An operand that is being carried on is in the stratum that the surrounding construct asks for,
and it is also in the stratum of whatever comes next, since nothing tighter has been left
standing there. So each step of the loop is a rule of the grammar.
-/

import Monkey.Proofs.Grammar.Completion
import Monkey.Proofs.Parse.Lookahead

namespace Monkey

open Grammar

namespace Grammar

variable {first : String} {others : List String} {kinds more : List Kind}

theorem moreNames_of_cons (isFirst : kinds = [.ident first]) (areOthers : more = moreNames others) :
    .symbol .comma :: (kinds ++ more) = moreNames (first :: others) := by
  rw [isFirst, areOthers]
  rfl

theorem names_of_cons (isFirst : kinds = [.ident first]) (areOthers : more = moreNames others) :
    kinds ++ more = names (first :: others) := by
  rw [isFirst, areOthers]
  rfl

end Grammar

namespace Parser

variable {α β : Type} {tape : Tape}

/-- If the rule succeeds, its answer is what the tokens are that it has passed. If it rejects a
token, those before it can be completed to what the rule is after. -/
def Reads (rule : Parser α) (tape : Tape) (goal : List Kind → Prop)
    (what : List Kind → α → Tape → Prop) : Prop :=
  match rule tape with
  | .ok result after =>
    ∃ passed, tape.Passes passed after ∧ what (passed.map Token.kind) result after
  | .error (.rejected diagnostic) _ =>
    ∃ passed place, tape.Passes passed place ∧ diagnostic.token = place.peek ∧
      Completable goal (passed.map Token.kind)
  | .error .exhausted _ => True

namespace Reads

variable {goal inner : List Kind → Prop} {what : List Kind → α → Tape → Prop}

theorem of_ok {rule : Parser α} (reads : Reads rule tape goal what) {result : α} {after : Tape}
    (isOk : rule tape = .ok result after) :
    ∃ passed, tape.Passes passed after ∧ what (passed.map Token.kind) result after := by
  rw [Reads, isOk] at reads
  exact reads

theorem of_rejected {rule : Parser α} (reads : Reads rule tape goal what)
    {diagnostic : Diagnostic} {stopped : Tape}
    (isError : rule tape = .error (.rejected diagnostic) stopped) :
    ∃ passed place, tape.Passes passed place ∧ diagnostic.token = place.peek ∧
      Completable goal (passed.map Token.kind) := by
  rw [Reads, isError] at reads
  exact reads

theorem mono {other : List Kind → α → Tape → Prop} {rule : Parser α}
    (reads : Reads rule tape inner what)
    (isOther : ∀ passed result after, tape.Passes passed after →
      what (passed.map Token.kind) result after → other (passed.map Token.kind) result after)
    (isGoal : ∀ passed place, tape.Passes passed place →
      Completable inner (passed.map Token.kind) → Completable goal (passed.map Token.kind)) :
    Reads rule tape goal other := by
  rw [Reads] at reads ⊢
  cases reached : rule tape with
  | ok result after =>
      rw [reached] at reads
      obtain ⟨passed, passes, isWhat⟩ := reads
      exact ⟨passed, passes, isOther passed result after passes isWhat⟩
  | error stop stopped =>
      rw [reached] at reads
      cases stop with
      | rejected diagnostic =>
          obtain ⟨passed, place, passes, isToken, completable⟩ := reads
          exact ⟨passed, place, passes, isToken, isGoal passed place passes completable⟩
      | exhausted => trivial

/-- What is read inside of something is completed further. -/
theorem close {other : List Kind → α → Tape → Prop} {rule : Parser α}
    (reads : Reads rule tape inner what)
    (isOther : ∀ kinds result after, what kinds result after → other kinds result after)
    (closing : ∀ kinds, inner kinds → Completable goal kinds) : Reads rule tape goal other :=
  reads.mono (fun _ result after _ => isOther _ result after)
    fun _ _ _ completable => completable.bind closing

theorem value {result : α} (isWhat : what [] result tape) : Reads (pure result) tape goal what :=
  ⟨[], .refl tape, isWhat⟩

theorem exhausted : Reads exhausted tape goal what := trivial

theorem takeExhausted : Reads (take >>= fun _ => Parser.exhausted) tape goal what := trivial

/-- The next token is rejected before anything has been passed. -/
theorem reject {rule : Parser α} {diagnostic : Diagnostic} {stopped : Tape}
    (isError : rule tape = .error (.rejected diagnostic) stopped)
    (isToken : diagnostic.token = tape.peek) (completable : Completable goal []) :
    Reads rule tape goal what := by
  rw [Reads, isError]
  exact ⟨[], tape, .refl tape, isToken, completable⟩

/-- What goes on behind tokens that have been passed. -/
theorem behind {rule other : Parser α} {middle : Tape} {before : List Token}
    (passes : tape.Passes before middle) (same : rule tape = other middle)
    (reads : Reads other middle (fun more => goal (before.map Token.kind ++ more))
      fun more result after => what (before.map Token.kind ++ more) result after) :
    Reads rule tape goal what := by
  rw [Reads] at reads ⊢
  rw [same]
  cases ended : other middle with
  | ok result after =>
      rw [ended] at reads
      obtain ⟨passed, passesThen, isWhat⟩ := reads
      refine ⟨before ++ passed, passes.trans passesThen, ?_⟩
      rw [List.map_append]
      exact isWhat
  | error stop stopped =>
      rw [ended] at reads
      cases stop with
      | rejected diagnostic =>
          obtain ⟨passed, place, passesThen, isToken, completable⟩ := reads
          refine ⟨before ++ passed, place, passes.trans passesThen, isToken, ?_⟩
          rw [List.map_append]
          exact completable.behind _
      | exhausted => trivial

theorem bind {first : Parser α} {second : α → Parser β} {target : List Kind → β → Tape → Prop}
    (isFirst : Reads first tape inner what)
    (closing : ∀ kinds, inner kinds → Completable goal kinds)
    (isSecond : ∀ kinds result middle, what kinds result middle →
      Reads (second result) middle (fun more => goal (kinds ++ more))
        fun more answer after => target (kinds ++ more) answer after) :
    Reads (first >>= second) tape goal target := by
  rw [Reads] at isFirst
  cases reached : first tape with
  | error stop stopped =>
      rw [reached] at isFirst
      rw [Reads, bind_of_error reached]
      cases stop with
      | rejected diagnostic =>
          obtain ⟨passed, place, passes, isToken, completable⟩ := isFirst
          exact ⟨passed, place, passes, isToken, completable.bind closing⟩
      | exhausted => trivial
  | ok result middle =>
      rw [reached] at isFirst
      obtain ⟨passed, passes, isWhat⟩ := isFirst
      exact .behind passes (bind_of_ok reached second) (isSecond _ result middle isWhat)

/-- A rule with nothing behind it but an answer made of its own. -/
theorem thenValue {first : Parser α} {f : α → β} {target : List Kind → β → Tape → Prop}
    (isFirst : Reads first tape goal fun kinds result after => target kinds (f result) after) :
    Reads (first >>= fun result => pure (f result)) tape goal target := by
  apply isFirst.bind (fun _ => .done)
  intro kinds result middle isTarget
  exact .value (by rwa [List.append_nil])

/-- What goes on behind a rule that begins with the next token. -/
theorem takeThen {rule : Token → Parser β} {first : Token → Parser α} {second : α → Parser β}
    {target : List Kind → β → Tape → Prop} (same : rule tape.peek = first tape.peek >>= second)
    (reads : Reads ((take >>= first) >>= second) tape goal target) :
    Reads (take >>= rule) tape goal target := by
  have sameHere : (take >>= rule) tape = ((take >>= first) >>= second) tape := by
    rw [take_bind, same]
    rfl
  rw [Reads, sameHere]
  exact reads

theorem peekBind {second : Token → Parser α} (isSecond : Reads (second tape.peek) tape goal what) :
    Reads (peek >>= second) tape goal what := isSecond

theorem takeBind {second : Token → Parser α} {first : Kind} (isFirst : tape.peek.kind = first)
    (notEnd : first ≠ .eof)
    (isSecond : Reads (second tape.peek) tape.take (fun more => goal (first :: more))
      fun more result after => what (first :: more) result after) :
    Reads (take >>= second) tape goal what := by
  subst isFirst
  exact .behind (.next notEnd) (take_bind second tape) isSecond

theorem symbol (spelled : Symbol) :
    Reads (symbol spelled) tape (fun kinds => kinds = [.symbol spelled])
      fun kinds _ _ => kinds = [.symbol spelled] := by
  rw [Parser.symbol]
  apply peekBind
  split
  · next isSymbol => exact takeBind isSymbol (by simp) (value rfl)
  · exact reject rfl rfl (.close [.symbol spelled] (by simp [Fills]) (.done rfl))

/-- A symbol in front of others: they have to be completable without it. -/
theorem symbolBind {spelled : Symbol} {second : Unit → Parser α}
    (closing : Completable goal [.symbol spelled])
    (isSecond : ∀ middle, Reads (second ()) middle (fun more => goal (.symbol spelled :: more))
      fun more result after => what (.symbol spelled :: more) result after) :
    Reads (Parser.symbol spelled >>= second) tape goal what := by
  apply bind (symbol spelled)
  · rintro _ rfl
    exact closing
  · rintro _ _ middle rfl
    exact isSecond middle

theorem name :
    Reads name tape (fun kinds => ∃ bound, kinds = [.ident bound])
      fun kinds bound _ => kinds = [.ident bound] := by
  rw [Parser.name]
  apply peekBind
  split
  · next isName => exact takeBind isName (by simp) (value rfl)
  · exact reject rfl rfl (.close [.ident "x"] (by simp [Fills]) (.done ⟨"x", rfl⟩))

/-- A complete statement takes its semicolon along. -/
theorem skipSemicolon {kinds : List Kind} {stmt : Stmt} (isStmt : IsStmt kinds stmt)
    (ends : tape.peek.kind.continuationAbove? .lowest = none) :
    Reads (do skipSemicolon; pure stmt) tape goal fun more answer after =>
      IsEnded (kinds ++ more) answer after.peek.kind := by
  show ∃ passed, tape.Passes passed tape.skipSemicolon ∧
    IsEnded (kinds ++ passed.map Token.kind) stmt tape.skipSemicolon.peek.kind
  rw [Tape.skipSemicolon]
  split
  · next isSemicolon =>
      refine ⟨[tape.peek], .next (by simp [isSemicolon]), kinds, isStmt, Or.inl ?_⟩
      rw [List.map_singleton, isSemicolon]
  · have notContinues := Kind.continuationAbove?_lowest.mp ends
    exact ⟨[], .refl tape, kinds, isStmt, Or.inr ⟨List.append_nil kinds, notContinues⟩⟩

section

variable {element : Parser α} {isElement : List Kind → α → Prop}
  (reads : ∀ tape, Reads element tape (fun kinds => ∃ item, isElement kinds item)
    fun kinds item _ => isElement kinds item)
  {areMore : List Kind → List α → Prop} (noMore : areMore [] [])
  (more : ∀ {first others kinds more}, isElement kinds first → areMore more others →
    areMore (.symbol .comma :: (kinds ++ more)) (first :: others))

include reads noMore more

/-- Elements with commas are whatever the shape of such a list makes of them, and the list can
be closed behind any of them. -/
theorem moreElements (budget : Nat) (tape : Tape) :
    Reads (moreElements element budget) tape
      (fun kinds => ∃ inner items, kinds = inner ++ [.symbol .rightParen] ∧ areMore inner items)
      fun kinds items _ =>
        ∃ inner, kinds = inner ++ [.symbol .rightParen] ∧ areMore inner items := by
  induction budget generalizing tape with
  | zero => exact exhausted
  | succ budget ih =>
      rw [Parser.moreElements]
      apply peekBind
      split
      · next isComma =>
          apply takeBind isComma (by simp)
          apply bind (reads _)
          · rintro kinds ⟨first, isFirst⟩
            refine .close [.symbol .rightParen] (by simp [Fills]) (.done ?_)
            exact ⟨.symbol .comma :: (kinds ++ []), [first], by simp, more isFirst noMore⟩
          · intro kinds first middle isFirst
            apply thenValue
            apply (ih middle).close
            · rintro _ others last ⟨inner, rfl, areOthers⟩
              exact ⟨.symbol .comma :: (kinds ++ inner), by simp, more isFirst areOthers⟩
            · rintro _ ⟨inner, others, rfl, areOthers⟩
              refine .done ⟨.symbol .comma :: (kinds ++ inner), first :: others, by simp, ?_⟩
              exact more isFirst areOthers
      · apply thenValue
        apply (symbol .rightParen).close
        · rintro _ _ middle rfl
          exact ⟨[], rfl, noMore⟩
        · rintro _ rfl
          exact .done ⟨[], [], rfl, noMore⟩

theorem elements {areAll : List Kind → List α → Prop} (none : areAll [] [])
    (some : ∀ {first others kinds more}, isElement kinds first → areMore more others →
      areAll (kinds ++ more) (first :: others)) (budget : Nat) (tape : Tape) :
    Reads (elements element budget) tape
      (fun kinds => ∃ inner items, kinds = inner ++ [.symbol .rightParen] ∧ areAll inner items)
      fun kinds items _ =>
        ∃ inner, kinds = inner ++ [.symbol .rightParen] ∧ areAll inner items := by
  rw [Parser.elements]
  apply peekBind
  split
  · next isParen => exact takeBind isParen (by simp) (value ⟨[], rfl, none⟩)
  · apply bind (reads _)
    · rintro kinds ⟨first, isFirst⟩
      refine .close [.symbol .rightParen] (by simp [Fills]) (.done ?_)
      exact ⟨kinds ++ [], [first], by simp, some isFirst noMore⟩
    · intro kinds first middle isFirst
      apply thenValue
      apply (moreElements reads noMore more budget middle).close
      · rintro _ others last ⟨inner, rfl, areOthers⟩
        exact ⟨kinds ++ inner, by simp, some isFirst areOthers⟩
      · rintro _ ⟨inner, others, rfl, areOthers⟩
        exact .done ⟨kinds ++ inner, first :: others, by simp, some isFirst areOthers⟩

end

/-- Parameters are names. -/
theorem names (budget : Nat) (tape : Tape) :
    Reads (Parser.elements Parser.name budget) tape
      (fun kinds => ∃ inner items,
        kinds = inner ++ [.symbol .rightParen] ∧ inner = Grammar.names items)
      fun kinds items _ =>
        ∃ inner, kinds = inner ++ [.symbol .rightParen] ∧ inner = Grammar.names items :=
  elements (fun _ => name) rfl moreNames_of_cons rfl names_of_cons budget tape

end Reads

/-- The tokens are an operand, of every stratum in which what comes next would have it. -/
def IsOperand (kinds : List Kind) (expr : Expr) (after : Tape) : Prop :=
  IsExpr .unary kinds expr ∧
    ∀ continuation, after.peek.kind.continuation? = some continuation →
      IsExpr continuation.stratum kinds expr

/-- An operand that stands by itself can be carried on by anything. -/
theorem IsOperand.ofPrimary {kinds : List Kind} {expr : Expr} {after : Tape}
    (isExpr : IsExpr .primary kinds expr) : IsOperand kinds expr after :=
  ⟨isExpr.ofPrimary .unary, fun continuation _ => isExpr.ofPrimary continuation.stratum⟩

/-- The tokens are an expression inside of the level, and nothing tighter comes next. -/
def IsWhole (level : Level) (kinds : List Kind) (expr : Expr) (after : Tape) : Prop :=
  IsExpr level.stratum kinds expr ∧ after.peek.kind.continuationAbove? level = none

/-- What each of the rules reads. -/
structure ReadsAll (budget : Nat) : Prop where
  nextExpression : ∀ level tape, level ≠ .call →
    Reads (do expression budget level (← take)) tape (IsSomeExpr level.stratum) (IsWhole level)
  nextOperand : ∀ tape, Reads (do operand budget (← take)) tape (IsSomeExpr .unary) IsOperand
  extend : ∀ level left tape before, level ≠ .call → IsExpr level.stratum before left →
    (∀ continuation, tape.peek.kind.continuation? = some continuation →
      IsExpr continuation.stratum before left) →
    Reads (extend budget level left) tape (fun kinds => IsSomeExpr level.stratum (before ++ kinds))
      fun kinds => IsWhole level (before ++ kinds)
  block : ∀ tape, Reads (block budget) tape IsSomeProgram fun kinds stmts _ =>
    ∃ inner, kinds = inner ++ [.symbol .rightBrace] ∧ IsProgram inner stmts
  nextStatement : ∀ tape,
    Reads (do statement budget (← take)) tape (fun kinds => ∃ stmt, IsStmt kinds stmt)
      fun kinds stmt after => IsEnded kinds stmt after.peek.kind

namespace ReadsAll

variable {budget : Nat} (rules : ReadsAll budget)

include rules

theorem nextExpressionBind {level : Level} (notCall : level ≠ .call) {second : Expr → Parser α}
    {goal : List Kind → Prop} {what : List Kind → α → Tape → Prop}
    (closing : ∀ kinds expr, IsExpr level.stratum kinds expr → Completable goal kinds)
    (isSecond : ∀ kinds expr middle, IsExpr level.stratum kinds expr →
      middle.peek.kind.continuationAbove? level = none →
      Reads (second expr) middle (fun more => goal (kinds ++ more))
        fun more answer after => what (kinds ++ more) answer after) :
    Reads (take >>= fun token => Parser.expression budget level token >>= second) tape goal
      what := by
  apply Reads.takeThen rfl
  apply (rules.nextExpression level tape notCall).bind
  · rintro kinds ⟨expr, isExpr⟩
    exact closing kinds expr isExpr
  · rintro kinds expr middle ⟨isExpr, ends⟩
    exact isSecond kinds expr middle isExpr ends

theorem blockBind {second : Block → Parser α} {goal : List Kind → Prop}
    {what : List Kind → α → Tape → Prop}
    (closing : ∀ kinds stmts, IsBlock kinds stmts → Completable goal kinds)
    (isSecond : ∀ kinds stmts middle, IsBlock kinds stmts →
      Reads (second stmts) middle (fun more => goal (kinds ++ more))
        fun more answer after => what (kinds ++ more) answer after) :
    Reads (symbol .leftBrace >>= fun _ => Parser.block budget >>= second) tape goal what := by
  have closed (kinds : List Kind) (isInner : IsSomeProgram kinds) :
      Completable goal (.symbol .leftBrace :: kinds) := by
    obtain ⟨stmts, areStmts⟩ := isInner
    exact .close [.symbol .rightBrace] (by simp [Fills]) (closing _ stmts (.braces areStmts))
  apply Reads.symbolBind (closed [] ⟨[], .nil⟩)
  intro middle
  apply (rules.block middle).bind closed
  rintro _ stmts last ⟨inner, rfl, areStmts⟩
  exact isSecond _ stmts last (.braces areStmts)

theorem nextExpression_succ (level : Level) (tape : Tape) (notCall : level ≠ .call) :
    Reads (do Parser.expression (budget + 1) level (← take)) tape (IsSomeExpr level.stratum)
      (IsWhole level) := by
  have unary : level.stratum.rank ≤ Stratum.unary.rank := by
    cases level <;> first | exact absurd rfl notCall | decide
  apply Reads.takeThen (expression_succ budget level tape.peek)
  apply (rules.nextOperand tape).bind
  · rintro kinds ⟨expr, isExpr⟩
    exact .done ⟨expr, isExpr.loosen unary⟩
  · rintro kinds left middle ⟨isUnary, fits⟩
    exact rules.extend level left middle kinds notCall (isUnary.loosen unary) fits

theorem nextOperand_succ (tape : Tape) :
    Reads (do Parser.operand (budget + 1) (← take)) tape (IsSomeExpr .unary) IsOperand := by
  have isOperand := operand_succ budget tape.peek
  have missing : Completable (IsSomeExpr .unary) [] :=
    .close [.ident "x"] (by simp [Fills]) (.done ⟨_, (IsExpr.ident "x").ofPrimary _⟩)
  cases isStart : tape.peek.kind.start with
  | ident name =>
      apply Reads.takeBind (Kind.eq_of_start isStart rfl) (by simp)
      rw [isOperand, isStart]
      exact .value (.ofPrimary (.ident name))
  | int digits =>
      have isInteger : Parser.operand (budget + 1) tape.peek = integer tape.peek digits := by
        rw [isOperand, isStart]
      rw [integer] at isInteger
      split at isInteger
      · next fits =>
          apply Reads.takeBind (Kind.eq_of_start isStart rfl) (by simp)
          rw [isInteger]
          exact .value (.ofPrimary (.int digits fits))
      · exact .reject (by rw [take_bind, isInteger]; rfl) rfl missing
  | bool value =>
      cases value with
      | true =>
          apply Reads.takeBind (Kind.eq_of_start isStart rfl) (by simp)
          rw [isOperand, isStart]
          exact .value (.ofPrimary .trueWord)
      | false =>
          apply Reads.takeBind (Kind.eq_of_start isStart rfl) (by simp)
          rw [isOperand, isStart]
          exact .value (.ofPrimary .falseWord)
  | prefixOp op =>
      apply Reads.takeBind (Kind.eq_of_start isStart rfl) (by simp)
      rw [isOperand, isStart]
      apply rules.nextExpressionBind (by simp)
      · intro kinds inner isInner
        exact .done ⟨_, .prefixOp op isInner⟩
      · intro kinds inner middle isInner ends
        have isExpr := IsExpr.prefixOp op isInner
        apply Reads.value
        rw [List.append_nil]
        refine ⟨isExpr, fun continuation isNext => isExpr.loosen ?_⟩
        exact Nat.le_of_lt (Kind.continuationAbove?_eq_none.mp ends _ isNext)
  | group =>
      apply Reads.takeBind (Kind.eq_of_start isStart rfl) (by simp)
      rw [isOperand, isStart]
      apply rules.nextExpressionBind (by simp)
      · intro kinds inner isInner
        exact .close [.symbol .rightParen] (by simp [Fills]) (.done (.group isInner))
      · intro kinds inner middle isInner _
        apply Reads.symbolBind (.done (.group isInner))
        exact fun last => .value (.ofPrimary (.group isInner))
  | conditional =>
      apply Reads.takeBind (Kind.eq_of_start isStart rfl) (by simp)
      rw [isOperand, isStart]
      -- What is still missing is closed by a name for the condition and an empty block, whichever
      -- part it is that stops.
      apply Reads.symbolBind
      · apply Completable.close [.ident "x", .symbol .rightParen, .symbol .leftBrace,
          .symbol .rightBrace] (by simp [Fills])
        exact .done (.ifThen ((IsExpr.ident "x").ofPrimary _) .empty)
      intro middle
      apply rules.nextExpressionBind (by simp)
      · intro kinds condition isCondition
        apply Completable.close [.symbol .rightParen, .symbol .leftBrace, .symbol .rightBrace]
          (by simp [Fills])
        exact .done (.ifThen isCondition .empty)
      intro kinds condition middle isCondition _
      apply Reads.symbolBind
      · apply Completable.close [.symbol .leftBrace, .symbol .rightBrace] (by simp [Fills])
        exact .done (.ifThen isCondition .empty)
      intro middle
      apply rules.blockBind
      · intro blockKinds consequence isConsequence
        exact .done (.ifThen isCondition isConsequence)
      intro blockKinds consequence middle isConsequence
      apply Reads.peekBind
      split
      · next isElse =>
          apply Reads.takeBind isElse (by simp)
          apply rules.blockBind
          · intro otherKinds alternative isAlternative
            exact .done (.ifThenElse isCondition isConsequence isAlternative)
          · intro otherKinds alternative last isAlternative
            have isExpr := IsExpr.ifThenElse isCondition isConsequence isAlternative
            exact .value (.ofPrimary (by simpa using isExpr))
      · have isExpr := IsExpr.ifThen isCondition isConsequence
        exact .value (.ofPrimary (by simpa using isExpr))
  | function =>
      apply Reads.takeBind (Kind.eq_of_start isStart rfl) (by simp)
      rw [isOperand, isStart]
      apply Reads.symbolBind
      · apply Completable.close [.symbol .rightParen, .symbol .leftBrace, .symbol .rightBrace]
          (by simp [Fills])
        exact .done (.fn [] .empty)
      intro middle
      apply (Reads.names budget middle).bind
      · rintro _ ⟨_, parameters, rfl, rfl⟩
        apply Completable.close [.symbol .leftBrace, .symbol .rightBrace] (by simp [Fills])
        exact .done (by simpa using IsSomeExpr.fn parameters .empty)
      rintro _ parameters middle ⟨_, rfl, rfl⟩
      apply rules.blockBind
      · intro kinds body isBody
        exact .done (by simpa using IsSomeExpr.fn parameters isBody)
      · intro kinds body last isBody
        exact .value (.ofPrimary (by simpa using IsExpr.fn parameters isBody))
  | illegal => exact .reject (by rw [take_bind, isOperand, isStart]; rfl) rfl missing
  | nothing => exact .reject (by rw [take_bind, isOperand, isStart]; rfl) rfl missing

/-- Arguments are expressions. -/
theorem arguments (tape : Tape) :
    Reads (Parser.elements (do Parser.expression budget .lowest (← take)) budget) tape
      (fun kinds => ∃ inner items,
        kinds = inner ++ [.symbol .rightParen] ∧ IsArguments inner items)
      fun kinds items _ =>
        ∃ inner, kinds = inner ++ [.symbol .rightParen] ∧ IsArguments inner items := by
  have isElement (tape : Tape) :
      Reads (do Parser.expression budget .lowest (← take)) tape (IsSomeExpr .equality)
        fun kinds expr _ => IsExpr .equality kinds expr :=
    (rules.nextExpression .lowest tape (by simp)).close (fun _ _ _ isWhole => isWhole.1)
      fun _ => .done
  exact .elements isElement .none .some .none .some budget tape

/-- The loop over continuations. Each of them has the operand before it in its own stratum. -/
theorem extend_succ (level : Level) (left : Expr) (tape : Tape) (before : List Kind)
    (notCall : level ≠ .call) (isLeft : IsExpr level.stratum before left)
    (fits : ∀ continuation, tape.peek.kind.continuation? = some continuation →
      IsExpr continuation.stratum before left) :
    Reads (Parser.extend (budget + 1) level left) tape
      (fun kinds => IsSomeExpr level.stratum (before ++ kinds))
      fun kinds => IsWhole level (before ++ kinds) := by
  rw [Parser.extend]
  apply Reads.peekBind
  cases isAbove : tape.peek.kind.continuationAbove? level with
  | none => exact .value ⟨by rwa [List.append_nil], isAbove⟩
  | some continuation =>
      obtain ⟨isNext, lets⟩ := Option.filter_eq_some_iff.mp isAbove
      have lets : level.stratum.rank ≤ continuation.stratum.rank :=
        (level.rank_lt_iff continuation).mp (of_decide_eq_true lets)
      have isOperand := fits continuation isNext
      cases continuation with
      | operator op =>
          apply Reads.takeBind (Kind.continuation?_eq_operator.mp isNext) (by simp)
          apply rules.nextExpressionBind op.level_ne_call
          · intro kinds right isRight
            rw [op.stratum_level] at isRight
            exact .done ⟨_, (IsExpr.infixOp isOperand isRight).loosen lets⟩
          intro kinds right middle isRight ends
          rw [op.stratum_level] at isRight
          have isWhole := IsExpr.infixOp isOperand isRight
          have fits := isWhole.fits_of_operator ends
          have reads := rules.extend level _ middle _ notCall (isWhole.loosen lets) fits
          simpa only [List.append_assoc, List.cons_append] using reads
      | call =>
          apply Reads.takeBind (Kind.continuation?_eq_call.mp isNext) (by simp)
          apply (rules.arguments tape.take).bind
          · rintro _ ⟨kinds, arguments, rfl, areArguments⟩
            exact .done ⟨_, (IsExpr.call isOperand areArguments).loosen lets⟩
          rintro _ arguments middle ⟨kinds, rfl, areArguments⟩
          have isWhole := IsExpr.call isOperand areArguments
          have fits (continuation : Continuation)
              (_ : middle.peek.kind.continuation? = some continuation) :=
            isWhole.fits_of_call continuation
          have reads := rules.extend level _ middle _ notCall (isWhole.loosen lets) fits
          simpa only [List.append_assoc, List.cons_append] using reads

theorem block_succ (tape : Tape) :
    Reads (Parser.block (budget + 1)) tape IsSomeProgram fun kinds stmts _ =>
      ∃ inner, kinds = inner ++ [.symbol .rightBrace] ∧ IsProgram inner stmts := by
  rw [Parser.block]
  by_cases isBrace : tape.peek.kind = .symbol .rightBrace
  · apply Reads.takeBind isBrace (by simp)
    rw [isBrace]
    exact .value ⟨[], rfl, .nil⟩
  by_cases isEnd : tape.peek.kind = .eof
  · exact .reject (by rw [take_bind, isEnd]; rfl) rfl (.done ⟨[], .nil⟩)
  apply Reads.takeThen ?_ ((rules.nextStatement tape).bind ?_ ?_)
  · exact fun first => Parser.block budget >>= fun others => pure (first :: others)
  · split
    · next isOther => exact absurd isOther isBrace
    · next isOther => exact absurd isOther isEnd
    · rfl
  · rintro kinds ⟨stmt, isStmt⟩
    exact .done isStmt.isSomeProgram
  · intro kinds first middle isFirst
    apply Reads.thenValue
    apply (rules.block middle).mono
    · rintro passed others last passes ⟨inner, isInner, areOthers⟩
      refine ⟨kinds ++ inner, by rw [isInner, List.append_assoc], isFirst.cons areOthers ?_⟩
      intro kind isHead
      apply passes.peek
      rw [isInner]
      cases inner with
      | nil => cases isHead
      | cons first others => exact isHead
    · exact fun passed place passes completable => isFirst.completable passes.peek completable

theorem nextStatement_succ (tape : Tape) :
    Reads (do Parser.statement (budget + 1) (← take)) tape (fun kinds => ∃ stmt, IsStmt kinds stmt)
      fun kinds stmt after => IsEnded kinds stmt after.peek.kind := by
  have isName : IsExpr .equality [.ident "x"] (.ident "x") := (IsExpr.ident "x").ofPrimary _
  by_cases isLet : tape.peek.kind = .keyword .letWord
  · apply Reads.takeBind isLet (by simp)
    rw [Parser.statement, isLet]
    apply Reads.name.bind
    · rintro _ ⟨bound, rfl⟩
      apply Completable.close [.symbol .assign, .ident "x"] (by simp [Fills])
      exact .done ⟨_, .letBind bound isName⟩
    rintro _ bound middle rfl
    apply Reads.symbolBind
    · apply Completable.close [.ident "x"] (by simp [Fills])
      exact .done ⟨_, .letBind bound isName⟩
    intro middle
    apply rules.nextExpressionBind (by simp)
    · intro kinds value isValue
      exact .done ⟨_, .letBind bound isValue⟩
    · intro kinds value middle isValue ends
      exact Reads.skipSemicolon (.letBind bound isValue) ends
  by_cases isReturn : tape.peek.kind = .keyword .returnWord
  · apply Reads.takeBind isReturn (by simp)
    rw [Parser.statement, isReturn]
    apply rules.nextExpressionBind (by simp)
    · intro kinds value isValue
      exact .done ⟨_, .ret isValue⟩
    · intro kinds value middle isValue ends
      exact Reads.skipSemicolon (.ret isValue) ends
  · apply Reads.takeThen ?_ ((rules.nextExpression .lowest tape (by simp)).bind ?_ ?_)
    · exact fun value => skipSemicolon >>= fun _ => pure (.expr value)
    · exact statement_succ_of_expression budget isLet isReturn
    · rintro kinds ⟨value, isValue⟩
      exact .done ⟨_, .expr isValue⟩
    · rintro kinds value middle ⟨isValue, ends⟩
      exact .skipSemicolon (.expr isValue) ends

end ReadsAll

theorem readsAll (budget : Nat) : ReadsAll budget := by
  induction budget with
  | zero =>
      constructor
      · exact fun _ _ _ => .takeExhausted
      · exact fun _ => .takeExhausted
      · exact fun _ _ _ _ _ _ _ => .exhausted
      · exact fun _ => .exhausted
      · exact fun _ => .takeExhausted
  | succ budget rules =>
      constructor
      · exact rules.nextExpression_succ
      · exact rules.nextOperand_succ
      · exact rules.extend_succ
      · exact rules.block_succ
      · exact rules.nextStatement_succ

end Parser

namespace Tape

variable {tape : Tape}

/-- What has been read without any diagnostic is a program. -/
theorem isProgram_of_parse (sound : tape.parse.diagnostics = []) :
    IsProgram tape.kinds tape.parse.program := by
  induction tape using parse_induction with
  | atEnd tape isEnd =>
      rw [parse_of_end isEnd, kinds, isEnd]
      exact .nil
  | sound tape stmt after nonempty isOk isParsed ih =>
      rw [isParsed] at sound ⊢
      have reads := (Parser.readsAll tape.budget).nextStatement tape
      obtain ⟨passed, passes, isFirst⟩ := reads.of_ok isOk
      rw [kinds, passes.ahead, List.map_append]
      exact isFirst.cons (ih sound) fun kind isHead => peek_kind_of_mem_head? isHead
  | broken tape diagnostic stopped nonempty isError isParsed ih =>
      rw [isParsed] at sound
      cases sound

/-- Where the first diagnostic is given, the tokens before it begin a program. -/
theorem completable_of_diagnostic {diagnostic : Diagnostic}
    (isFirst : tape.parse.diagnostics.head? = some diagnostic) :
    ∃ passed place, tape.Passes passed place ∧ diagnostic.token = place.peek ∧
      Completable IsSomeProgram (passed.map Token.kind) := by
  induction tape using parse_induction with
  | atEnd tape isEnd =>
      rw [parse_of_end isEnd] at isFirst
      cases isFirst
  | sound tape stmt after nonempty isOk isParsed ih =>
      rw [isParsed] at isFirst
      have reads := (Parser.readsAll tape.budget).nextStatement tape
      obtain ⟨passed, passes, isEnded⟩ := reads.of_ok isOk
      obtain ⟨others, place, passesOthers, isToken, completable⟩ := ih isFirst
      refine ⟨passed ++ others, place, passes.trans passesOthers, isToken, ?_⟩
      rw [List.map_append]
      exact (isEnded.completable passesOthers.peek completable).behind _
  | broken tape other stopped nonempty isError isParsed _ =>
      rw [isParsed] at isFirst
      obtain rfl : other = diagnostic := Option.some.inj isFirst
      have reads := (Parser.readsAll tape.budget).nextStatement tape
      obtain ⟨passed, place, passes, isToken, completable⟩ := reads.of_rejected isError
      refine ⟨passed, place, passes, isToken, completable.bind ?_⟩
      rintro kinds ⟨stmt, isStmt⟩
      exact .done isStmt.isSomeProgram

end Tape

end Monkey
