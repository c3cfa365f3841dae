/-
# What is in the grammar is read

A derivation tells what reading does on its tokens, provided that nothing behind them
binds more tightly than the stratum: reading an expression comes to carrying on its
tree, whatever the level around it. That is an induction over derivations, in which the
operands of a binary operator are read on either side of one turn of the loop.
-/

import Monkey.Proofs.Grammar.Soundness
import Monkey.Proofs.Parse.Settles

namespace Monkey

open Grammar

/-! ## First tokens -/

/-- An expression begins with a token that begins an operand. -/
theorem Grammar.IsExpr.exists_head {stratum : Stratum} {kinds : List Kind} {expr : Expr}
    (isExpr : IsExpr stratum kinds expr) :
    ∃ first others, kinds = first :: others ∧ first.start ≠ .nothing := by
  match isExpr with
  | .tighter inner => exact inner.exists_head
  | .infixOp first _ =>
      obtain ⟨kind, others, rfl, begins⟩ := first.exists_head
      exact ⟨kind, _, rfl, begins⟩
  | .call first _ =>
      obtain ⟨kind, others, rfl, begins⟩ := first.exists_head
      exact ⟨kind, _, rfl, begins⟩
  | .prefixOp op _ => exact ⟨_, _, rfl, by cases op <;> decide⟩
  | .ident _ => exact ⟨_, _, rfl, by simp [Kind.start]⟩
  | .int _ _ => exact ⟨_, _, rfl, by simp [Kind.start]⟩
  | .trueWord => exact ⟨_, _, rfl, by decide⟩
  | .falseWord => exact ⟨_, _, rfl, by decide⟩
  | .group _ => exact ⟨_, _, rfl, by decide⟩
  | .ifThen _ _ => exact ⟨_, _, rfl, by decide⟩
  | .ifThenElse _ _ _ => exact ⟨_, _, rfl, by decide⟩
  | .fn _ _ => exact ⟨_, _, rfl, by decide⟩

/-- The first token of an expression can be taken. -/
theorem Grammar.IsExpr.peek_cons {stratum : Stratum} {kinds rest : List Kind} {expr : Expr}
    (isExpr : IsExpr stratum kinds expr) {tape : Tape} (isKinds : tape.kinds = kinds ++ rest) :
    tape.peek.kind :: tape.take.kinds = kinds ++ rest := by
  obtain ⟨first, others, rfl, -⟩ := isExpr.exists_head
  obtain ⟨isFirst, isRest⟩ := Tape.peek_of_kinds isKinds
  rw [isFirst, isRest]
  rfl

/-! ## Expressions -/

/-- Nothing at the front of the tokens belongs to an expression of the stratum before them. -/
def Loose (stratum : Stratum) (kinds : List Kind) : Prop :=
  ∀ kind ∈ kinds.head?, kind ≠ .keyword .elseWord ∧
    ∀ continuation, kind.continuation? = some continuation →
      continuation.stratum.rank ≤ stratum.rank

namespace Loose

theorem mono {stratum tight : Stratum} {kinds : List Kind} (loose : Loose stratum kinds)
    (tighter : stratum.rank ≤ tight.rank) : Loose tight kinds := by
  intro kind isHead
  obtain ⟨notElse, below⟩ := loose kind isHead
  exact ⟨notElse, fun continuation isNext => Nat.le_trans (below continuation isNext) tighter⟩

/-- A continuation does not belong to an operand as tight as its own. -/
theorem of_continuation {kind : Kind} {continuation : Continuation}
    (isNext : kind.continuation? = some continuation) (kinds : List Kind) :
    Loose continuation.stratum (kind :: kinds) := by
  intro head isHead
  cases isHead
  constructor
  · rintro rfl
    cases isNext
  · intro other isOther
    rw [isNext] at isOther
    cases isOther
    exact Nat.le_refl _

end Loose

/-- Nothing at the front of the tokens belongs to what is complete before them. -/
def Apart (kinds : List Kind) : Prop :=
  ∀ kind ∈ kinds.head?, kind ≠ .keyword .elseWord ∧ kind.continuation? = none

namespace Apart

theorem of_kind {kind : Kind} (notElse : kind ≠ .keyword .elseWord)
    (notContinues : kind.continuation? = none) (kinds : List Kind) : Apart (kind :: kinds) := by
  intro head isHead
  cases isHead
  exact ⟨notElse, notContinues⟩

theorem symbol {spelled : Symbol} (notContinues : (Kind.symbol spelled).continuation? = none)
    (kinds : List Kind) : Apart (.symbol spelled :: kinds) :=
  .of_kind (by simp) notContinues kinds

theorem loose {kinds : List Kind} (apart : Apart kinds) (stratum : Stratum) :
    Loose stratum kinds := by
  intro kind isHead
  obtain ⟨notElse, notContinues⟩ := apart kind isHead
  exact ⟨notElse, by simp [notContinues]⟩

theorem continuationAbove? {kinds : List Kind} (apart : Apart kinds) :
    ∀ kind ∈ kinds.head?, kind.continuationAbove? .lowest = none := by
  intro kind isHead
  have notContinues := Kind.continuation?_eq_none.mp (apart kind isHead).2
  exact Kind.continuationAbove?_lowest.mpr notContinues

end Apart

namespace Parser

/-- Reading an expression from a token on comes to carrying on the tree, with the given
tokens left. -/
def ReadsTo (level : Level) (token : Token) (tape : Tape) (expr : Expr) (rest : List Kind) :
    Prop :=
  ∃ middle : Tape, middle.kinds = rest ∧ ∀ result after,
    Settles (fun budget => extend budget level expr) middle result after →
      Settles (fun budget => expression budget level token) tape result after

namespace ReadsTo

variable {level : Level} {token : Token} {tape : Tape} {expr : Expr} {rest : List Kind}

/-- An expression that is read completely. -/
theorem whole (reads : ReadsTo level token tape expr rest)
    (ends : ∀ kind ∈ rest.head?, kind.continuationAbove? level = none) :
    ∃ middle : Tape, middle.kinds = rest ∧
      Settles (fun budget => expression budget level token) tape expr middle := by
  obtain ⟨middle, rfl, settles⟩ := reads
  have stops := Tape.peek_of_head? (fun kind => kind.continuationAbove? level = none) ends rfl
  exact ⟨middle, rfl, settles expr middle (.extend expr stops)⟩

/-- What is read as an operand is carried on from there. -/
theorem ofOperand {middle : Tape} (isRest : middle.kinds = rest)
    (settles : Settles (fun budget => operand budget token) tape expr middle) :
    ReadsTo level token tape expr rest :=
  ⟨middle, isRest, fun _ _ isExtended => .expression settles isExtended⟩

/-- An operand of one token. -/
theorem ofToken {kind : Kind} (isKinds : token.kind :: tape.kinds = [kind] ++ rest)
    (answers : ∀ budget, token.kind = kind → operand (budget + 1) token = pure expr) :
    ReadsTo level token tape expr rest := by
  obtain ⟨isToken, isRest⟩ := List.cons.inj isKinds
  apply ofOperand isRest
  apply Settles.of_succ
  simp only [answers _ isToken]
  exact .value expr

end ReadsTo

end Parser

open Monkey.Parser

/-- A complete expression is read as what it is, once it is known how its tokens are read. -/
theorem Grammar.IsExpr.readAll {kinds rest : List Kind} {expr : Expr}
    (isExpr : IsExpr .equality kinds expr)
    (reads : ∀ {token tape rest}, token.kind :: tape.kinds = kinds ++ rest →
      Loose .equality rest → ReadsTo .lowest token tape expr rest)
    {tape : Tape} (isKinds : tape.kinds = kinds ++ rest) (apart : Apart rest) :
    ∃ middle : Tape, middle.kinds = rest ∧
      Settles (fun budget => expression budget .lowest tape.peek) tape.take expr middle := by
  have reads := reads (isExpr.peek_cons isKinds) (apart.loose .equality)
  exact reads.whole apart.continuationAbove?

/-- Arguments after the first one begin with a comma, or else the list is at its end. -/
theorem Grammar.IsMoreArguments.apart {kinds : List Kind} {arguments : List Expr}
    (areArguments : IsMoreArguments kinds arguments) (rest : List Kind) :
    Apart (kinds ++ .symbol .rightParen :: rest) := by
  cases areArguments with
  | none => exact .symbol rfl _
  | some isFirst areOthers => exact .symbol rfl _

/-- Parameters are read up to the closing parenthesis. -/
theorem Grammar.moreNames_read (names : List String) {tape : Tape} {rest : List Kind}
    (isKinds : tape.kinds = moreNames names ++ .symbol .rightParen :: rest) :
    ∃ after : Tape, after.kinds = rest ∧
      Settles.Elements (fun _ => name) tape names after := by
  induction names generalizing tape with
  | nil =>
      obtain ⟨isParen, isRest⟩ := Tape.peek_of_kinds isKinds
      exact ⟨tape.take, isRest, .nil _ isParen⟩
  | cons bound names ih =>
      obtain ⟨isComma, isMore⟩ := Tape.peek_of_kinds isKinds
      obtain ⟨isName, isRest⟩ := Tape.peek_of_kinds isMore
      obtain ⟨after, isAfter, others⟩ := ih isRest
      exact ⟨after, isAfter, .cons isComma (.name isName) others⟩

theorem Grammar.names_read (names : List String) {tape : Tape} {rest : List Kind}
    (isKinds : tape.kinds = Grammar.names names ++ .symbol .rightParen :: rest) :
    ∃ after : Tape, after.kinds = rest ∧
      Settles (fun budget => elements name budget) tape names after := by
  cases names with
  | nil =>
      obtain ⟨isParen, isRest⟩ := Tape.peek_of_kinds isKinds
      exact ⟨tape.take, isRest, .noElements _ isParen⟩
  | cons bound names =>
      obtain ⟨isName, isMore⟩ := Tape.peek_of_kinds isKinds
      obtain ⟨after, isAfter, others⟩ := moreNames_read names isMore
      have notParen : tape.peek.kind ≠ .symbol .rightParen := by
        rw [isName]
        simp
      exact ⟨after, isAfter, .elements notParen (.name isName) others⟩

/-! ## Statements -/

/-- Where a run of statements ends: nothing there belongs to the last of them. -/
structure Ends (kinds : List Kind) : Prop where
  apart : Apart kinds
  noSemicolon : ∀ kind ∈ kinds.head?, kind ≠ .symbol .semicolon

theorem Ends.nil : Ends [] where
  apart := by simp [Apart]
  noSemicolon := by simp

theorem Ends.rightBrace {kinds : List Kind} : Ends (.symbol .rightBrace :: kinds) where
  apart := .symbol rfl _
  noSemicolon := by simp

/-- What a statement may begin with. -/
def Begins (kind : Kind) : Prop :=
  kind = .keyword .letWord ∨ kind = .keyword .returnWord ∨ kind.start ≠ .nothing

theorem Begins.ne {kind other : Kind} (begins : Begins kind) (nothing : other.start = .nothing)
    (notLet : other ≠ .keyword .letWord) (notReturn : other ≠ .keyword .returnWord) :
    kind ≠ other := by
  rintro rfl
  rcases begins with isLet | isReturn | starts
  · exact notLet isLet
  · exact notReturn isReturn
  · exact starts nothing

theorem Grammar.IsStmt.exists_head {kinds : List Kind} {stmt : Stmt} (isStmt : IsStmt kinds stmt) :
    ∃ first others, kinds = first :: others ∧ Begins first := by
  cases isStmt with
  | letBind name inner => exact ⟨_, _, rfl, Or.inl rfl⟩
  | ret inner => exact ⟨_, _, rfl, Or.inr (Or.inl rfl)⟩
  | expr inner =>
      obtain ⟨kind, others, rfl, begins⟩ := inner.exists_head
      exact ⟨kind, others, rfl, Or.inr (Or.inr begins)⟩

/-- The first token of a statement can be taken. -/
theorem Grammar.IsStmt.peek_cons {kinds rest : List Kind} {stmt : Stmt}
    (isStmt : IsStmt kinds stmt) {tape : Tape} (isKinds : tape.kinds = kinds ++ rest) :
    Begins tape.peek.kind ∧ tape.peek.kind :: tape.take.kinds = kinds ++ rest := by
  obtain ⟨first, others, rfl, begins⟩ := isStmt.exists_head
  obtain ⟨rfl, isRest⟩ := Tape.peek_of_kinds isKinds
  rw [isRest]
  exact ⟨begins, rfl⟩

theorem Grammar.IsProgram.begins {kinds : List Kind} {stmts : Program}
    (isProgram : IsProgram kinds stmts) : ∀ kind ∈ kinds.head?, Begins kind := by
  intro kind isHead
  cases isProgram with
  | nil => cases isHead
  | ended isFirst areOthers =>
      obtain ⟨first, others, rfl, begins⟩ := isFirst.exists_head
      cases isHead
      exact begins
  | unended isFirst areOthers apart =>
      obtain ⟨first, others, rfl, begins⟩ := isFirst.exists_head
      cases isHead
      exact begins

/-- A statement without a semicolon ends where the statements behind it begin. -/
theorem Grammar.IsProgram.ends {kinds rest : List Kind} {stmts : Program}
    (isProgram : IsProgram kinds stmts) (apart : ∀ kind ∈ kinds.head?, ¬ Continues kind)
    (ends : Ends rest) : Ends (kinds ++ rest) := by
  cases kinds with
  | nil => exact ends
  | cons first others =>
      have begins := isProgram.begins first rfl
      have notContinues := Kind.continuation?_eq_none.mpr (apart first rfl)
      constructor
      · exact .of_kind (begins.ne rfl (by simp) (by simp)) notContinues _
      · intro kind isHead
        cases isHead
        exact begins.ne rfl (by simp) (by simp)

namespace Parser

/-- Statements are read one after another. -/
inductive Statements : Tape → List Stmt → Tape → Prop
  | nil {tape : Tape} : Statements tape [] tape
  | cons {tape middle after : Tape} {first : Stmt} {others : List Stmt}
    (begins : Begins tape.peek.kind)
    (settles : Settles (fun budget => statement budget tape.peek) tape.take first middle)
    (statements : Statements middle others after) : Statements tape (first :: others) after

/-- A block is the statements up to its closing brace. -/
theorem Statements.block {tape after : Tape} {stmts : List Stmt}
    (statements : Statements tape stmts after) (isBrace : after.peek.kind = .symbol .rightBrace) :
    Settles block tape stmts after.take := by
  induction statements with
  | nil => exact .blockEnd isBrace
  | cons begins settles statements ih =>
      have notBrace := begins.ne (show (Kind.symbol .rightBrace).start = .nothing from rfl)
        (by simp) (by simp)
      have notEnd := begins.ne (show Kind.eof.start = .nothing from rfl) (by simp) (by simp)
      exact .blockNext notBrace notEnd settles (ih isBrace)

end Parser

/-! ## Derivations -/

mutual

theorem Grammar.IsExpr.readsTo {layer : Stratum} {kinds rest : List Kind} {expr : Expr}
    (isExpr : IsExpr layer kinds expr) {level : Level}
    (inside : level.stratum.rank ≤ layer.rank) {token : Token} {tape : Tape}
    (isKinds : token.kind :: tape.kinds = kinds ++ rest) (loose : Loose layer rest) :
    ReadsTo level token tape expr rest := by
  match isExpr with
  | .tighter inner =>
      have tighter : layer.rank ≤ layer.tighter.rank := by cases layer <;> decide
      exact inner.readsTo (Nat.le_trans inside tighter) isKinds (loose.mono tighter)
  | @IsExpr.infixOp op left right leftKinds rightKinds first second =>
      rw [List.append_assoc, List.cons_append] at isKinds
      -- The operator does not belong to an operand before it, and it is let through here.
      have isNext : (Kind.symbol op.symbol).continuation? = some (.operator op) :=
        Kind.continuation?_eq_operator.mpr rfl
      obtain ⟨middle, isMiddle, settles⟩ := first.readsTo inside isKinds (.of_continuation isNext _)
      obtain ⟨isOperator, isRight⟩ := Tape.peek_of_kinds isMiddle
      have lets : middle.peek.kind.continuationAbove? level = some (.operator op) := by
        rw [isOperator]
        exact Kind.continuationAbove?_of_rank isNext inside
      have tighter : (stratum op).rank < (stratum op).tighter.rank := by cases op <;> decide
      have within : op.level.stratum.rank ≤ (stratum op).tighter.rank := by
        rw [op.stratum_level]
      have reads := second.readsTo within (second.peek_cons isRight)
        (loose.mono (Nat.le_of_lt tighter))
      obtain ⟨last, isLast, settlesRight⟩ := reads.whole fun kind isHead => by
        rw [Kind.continuationAbove?_eq_none, op.stratum_level]
        intro continuation isNext
        exact Nat.lt_of_le_of_lt ((loose kind isHead).2 continuation isNext) tighter
      exact ⟨last, isLast, fun result after isExtended =>
        settles result after (.extendOperator lets settlesRight isExtended)⟩
  | @IsExpr.call callee arguments calleeKinds argumentKinds first given =>
      rw [List.append_assoc, List.cons_append, List.append_assoc] at isKinds
      have isNext : (Kind.symbol .leftParen).continuation? = some .call := rfl
      obtain ⟨middle, isMiddle, settles⟩ := first.readsTo inside isKinds (.of_continuation isNext _)
      obtain ⟨isParen, isGiven⟩ := Tape.peek_of_kinds isMiddle
      have lets : middle.peek.kind.continuationAbove? level = some .call := by
        rw [isParen]
        exact Kind.continuationAbove?_of_rank isNext inside
      obtain ⟨last, isLast, settlesGiven⟩ := given.read isGiven
      exact ⟨last, isLast, fun result after isExtended =>
        settles result after (.extendCall lets settlesGiven isExtended)⟩
  | .prefixOp op inner =>
      obtain ⟨isToken, isInner⟩ := List.cons.inj isKinds
      have within : Level.prefixOp.stratum.rank ≤ Stratum.unary.rank := Nat.le_refl _
      have reads := inner.readsTo within (inner.peek_cons isInner) loose
      obtain ⟨last, isLast, settles⟩ := reads.whole fun kind isHead => by
        rw [Kind.continuationAbove?_eq_none]
        intro continuation isNext
        have below := (loose kind isHead).2 continuation isNext
        cases continuation with
        | operator op => cases op <;> decide
        | call => exact absurd below (by decide)
      have isStart : token.kind.start = .prefixOp op := by
        rw [isToken]
        cases op <;> rfl
      exact .ofOperand isLast (.prefixOp isStart settles)
  | .ident name =>
      apply ReadsTo.ofToken isKinds
      intro budget isToken
      rw [operand_succ, isToken, Kind.start]
  | .int digits fits =>
      apply ReadsTo.ofToken isKinds
      intro budget isToken
      rw [operand_succ, isToken, Kind.start]
      exact if_pos fits
  | .trueWord =>
      apply ReadsTo.ofToken isKinds
      intro budget isToken
      rw [operand_succ, isToken, Kind.start]
  | .falseWord =>
      apply ReadsTo.ofToken isKinds
      intro budget isToken
      rw [operand_succ, isToken, Kind.start]
  | .group inner =>
      obtain ⟨isToken, isInner⟩ := List.cons.inj isKinds
      rw [List.append_eq, List.append_assoc] at isInner
      obtain ⟨middle, isMiddle, settles⟩ :=
        inner.readAll (inner.readsTo (Nat.le_refl _)) isInner (.symbol rfl _)
      obtain ⟨isParen, isRest⟩ := Tape.peek_of_kinds isMiddle
      have isStart : token.kind.start = .group := by rw [isToken]; rfl
      exact .ofOperand isRest (.group isStart settles isParen)
  | .ifThen first second =>
      obtain ⟨isToken, isInner⟩ := List.cons.inj isKinds
      obtain ⟨isParen, isCondition⟩ := Tape.peek_of_kinds isInner
      rw [List.append_eq, List.append_assoc] at isCondition
      obtain ⟨middle, isMiddle, settlesCondition⟩ :=
        first.readAll (first.readsTo (Nat.le_refl _)) isCondition (.symbol rfl _)
      obtain ⟨isClosing, isBlock⟩ := Tape.peek_of_kinds isMiddle
      obtain ⟨last, isLast, isBrace, settlesBlock⟩ := second.read isBlock
      have noElse : last.peek.kind ≠ .keyword .elseWord := by
        apply Tape.peek_of_head? (fun kind => kind ≠ .keyword .elseWord) _ (by simp)
        rw [isLast]
        exact fun kind isHead => (loose kind isHead).1
      have isStart : token.kind.start = .conditional := by rw [isToken]; rfl
      apply ReadsTo.ofOperand isLast
      exact .ifThen isStart isParen settlesCondition isClosing isBrace settlesBlock noElse
  | .ifThenElse first second third =>
      obtain ⟨isToken, isInner⟩ := List.cons.inj isKinds
      obtain ⟨isParen, isCondition⟩ := Tape.peek_of_kinds isInner
      rw [List.append_eq, List.append_assoc, List.cons_append, List.append_assoc] at isCondition
      obtain ⟨middle, isMiddle, settlesCondition⟩ :=
        first.readAll (first.readsTo (Nat.le_refl _)) isCondition (.symbol rfl _)
      obtain ⟨isClosing, isBlock⟩ := Tape.peek_of_kinds isMiddle
      obtain ⟨last, isLast, isBrace, settlesBlock⟩ := second.read isBlock
      obtain ⟨isElse, isOther⟩ := Tape.peek_of_kinds isLast
      obtain ⟨after, isAfter, isOtherBrace, settlesOther⟩ := third.read isOther
      have isStart : token.kind.start = .conditional := by rw [isToken]; rfl
      apply ReadsTo.ofOperand isAfter
      exact .ifThenElse isStart isParen settlesCondition isClosing isBrace settlesBlock isElse
        isOtherBrace settlesOther
  | .fn parameters inner =>
      obtain ⟨isToken, isInner⟩ := List.cons.inj isKinds
      obtain ⟨isParen, areNames⟩ := Tape.peek_of_kinds isInner
      rw [List.append_eq, List.append_assoc] at areNames
      obtain ⟨middle, isBody, settlesNames⟩ := names_read parameters areNames
      obtain ⟨last, isLast, isBrace, settlesBody⟩ := inner.read isBody
      have isStart : token.kind.start = .function := by rw [isToken]; rfl
      exact .ofOperand isLast (.function isStart isParen settlesNames isBrace settlesBody)

theorem Grammar.IsArguments.read {kinds rest : List Kind} {arguments : List Expr}
    (areArguments : IsArguments kinds arguments) {tape : Tape}
    (isKinds : tape.kinds = kinds ++ .symbol .rightParen :: rest) :
    ∃ after : Tape, after.kinds = rest ∧
      Settles (fun budget => elements (do expression budget .lowest (← take)) budget) tape
        arguments after := by
  match areArguments with
  | .none =>
      obtain ⟨isParen, isRest⟩ := Tape.peek_of_kinds isKinds
      exact ⟨tape.take, isRest, .noElements _ isParen⟩
  | .some isFirst areOthers =>
      rw [List.append_assoc] at isKinds
      obtain ⟨middle, isMiddle, settlesFirst⟩ :=
        isFirst.readAll (isFirst.readsTo (Nat.le_refl _)) isKinds (areOthers.apart rest)
      obtain ⟨after, isAfter, settlesOthers⟩ := areOthers.read isMiddle
      have notParen : tape.peek.kind ≠ .symbol .rightParen := by
        obtain ⟨head, more, rfl, starts⟩ := isFirst.exists_head
        obtain ⟨isHead, -⟩ := Tape.peek_of_kinds isKinds
        rw [isHead]
        rintro rfl
        exact starts rfl
      exact ⟨after, isAfter, .elements notParen (.takeBind settlesFirst) settlesOthers⟩

theorem Grammar.IsMoreArguments.read {kinds rest : List Kind} {arguments : List Expr}
    (areArguments : IsMoreArguments kinds arguments) {tape : Tape}
    (isKinds : tape.kinds = kinds ++ .symbol .rightParen :: rest) :
    ∃ after : Tape, after.kinds = rest ∧
      Settles.Elements (fun budget => do expression budget .lowest (← take)) tape arguments
        after := by
  match areArguments with
  | .none =>
      obtain ⟨isParen, isRest⟩ := Tape.peek_of_kinds isKinds
      exact ⟨tape.take, isRest, .nil _ isParen⟩
  | .some isFirst areOthers =>
      obtain ⟨isComma, isMore⟩ := Tape.peek_of_kinds isKinds
      rw [List.append_eq, List.append_assoc] at isMore
      obtain ⟨middle, isMiddle, settlesFirst⟩ :=
        isFirst.readAll (isFirst.readsTo (Nat.le_refl _)) isMore (areOthers.apart rest)
      obtain ⟨after, isAfter, settlesOthers⟩ := areOthers.read isMiddle
      exact ⟨after, isAfter, .cons isComma (.takeBind settlesFirst) settlesOthers⟩

theorem Grammar.IsBlock.read {kinds rest : List Kind} {stmts : Block}
    (isBlock : IsBlock kinds stmts) {tape : Tape} (isKinds : tape.kinds = kinds ++ rest) :
    ∃ after : Tape, after.kinds = rest ∧ tape.peek.kind = .symbol .leftBrace ∧
      Settles block tape.take stmts after := by
  match isBlock with
  | .braces inner =>
      obtain ⟨isBrace, isInner⟩ := Tape.peek_of_kinds isKinds
      rw [List.append_eq, List.append_assoc] at isInner
      obtain ⟨after, isAfter, statements⟩ := inner.read isInner .rightBrace
      obtain ⟨isClosing, isRest⟩ := Tape.peek_of_kinds isAfter
      exact ⟨after.take, isRest, isBrace, statements.block isClosing⟩

theorem Grammar.IsStmt.read {kinds rest : List Kind} {stmt : Stmt} (isStmt : IsStmt kinds stmt)
    {token : Token} {tape : Tape} (isKinds : token.kind :: tape.kinds = kinds ++ rest)
    (apart : Apart rest) :
    ∃ middle : Tape, middle.kinds = rest ∧
      Settles (fun budget => statement budget token) tape stmt middle.skipSemicolon := by
  match isStmt with
  | .letBind bound inner =>
      obtain ⟨isToken, isBound⟩ := List.cons.inj isKinds
      obtain ⟨isName, isAssign⟩ := Tape.peek_of_kinds isBound
      obtain ⟨isAssign, isValue⟩ := Tape.peek_of_kinds isAssign
      obtain ⟨middle, isMiddle, settles⟩ :=
        inner.readAll (inner.readsTo (Nat.le_refl _)) isValue apart
      exact ⟨middle, isMiddle, .letBind isToken isName isAssign settles⟩
  | .ret inner =>
      obtain ⟨isToken, isValue⟩ := List.cons.inj isKinds
      obtain ⟨middle, isMiddle, settles⟩ :=
        inner.readAll (inner.readsTo (Nat.le_refl _)) isValue apart
      exact ⟨middle, isMiddle, .ret isToken settles⟩
  | .expr inner =>
      have reads := inner.readsTo (Nat.le_refl Level.lowest.stratum.rank) isKinds
        (apart.loose .equality)
      obtain ⟨middle, isMiddle, settles⟩ := reads.whole apart.continuationAbove?
      obtain ⟨first, others, rfl, starts⟩ := inner.exists_head
      obtain ⟨isToken, -⟩ := List.cons.inj isKinds
      rw [← isToken] at starts
      exact ⟨middle, isMiddle, .statement starts settles⟩

theorem Grammar.IsProgram.read {kinds rest : List Kind} {stmts : Program}
    (isProgram : IsProgram kinds stmts) {tape : Tape} (isKinds : tape.kinds = kinds ++ rest)
    (ends : Ends rest) : ∃ after : Tape, after.kinds = rest ∧ Statements tape stmts after := by
  match isProgram with
  | .nil => exact ⟨tape, isKinds, .nil⟩
  | @IsProgram.ended first others firstKinds moreKinds isFirst areOthers =>
      rw [List.append_assoc] at isKinds
      obtain ⟨begins, isFirstKinds⟩ := isFirst.peek_cons isKinds
      obtain ⟨middle, isMiddle, settles⟩ := isFirst.read isFirstKinds (.symbol rfl _)
      obtain ⟨isSemicolon, isMore⟩ := Tape.peek_of_kinds isMiddle
      rw [Tape.skipSemicolon, if_pos isSemicolon] at settles
      obtain ⟨after, isAfter, statements⟩ := areOthers.read isMore ends
      exact ⟨after, isAfter, .cons begins settles statements⟩
  | @IsProgram.unended first others firstKinds moreKinds isFirst areOthers apart =>
      rw [List.append_assoc] at isKinds
      have endsFirst := areOthers.ends apart ends
      obtain ⟨begins, isFirstKinds⟩ := isFirst.peek_cons isKinds
      obtain ⟨middle, isMiddle, settles⟩ := isFirst.read isFirstKinds endsFirst.apart
      have noSemicolon : middle.peek.kind ≠ .symbol .semicolon := by
        apply Tape.peek_of_head? (fun kind => kind ≠ .symbol .semicolon) _ (by simp)
        rw [isMiddle]
        exact endsFirst.noSemicolon
      rw [Tape.skipSemicolon, if_neg noSemicolon] at settles
      obtain ⟨after, isAfter, statements⟩ := areOthers.read isMiddle ends
      exact ⟨after, isAfter, .cons begins settles statements⟩

end

/-- Reading one statement after the other, with the budgets that a tape is given. -/
theorem Parser.Statements.parse {tape after : Tape} {stmts : List Stmt}
    (statements : Statements tape stmts after) (atEnd : after.ahead = []) :
    tape.parse = ⟨stmts, []⟩ := by
  induction statements with
  | nil => exact Tape.parse_of_end atEnd
  | @cons tape middle after first others begins settles statements ih =>
      have notEnd := begins.ne (show Kind.eof.start = .nothing from rfl) (by simp) (by simp)
      have nonempty := List.length_pos_iff.mp (length_pos_of_peek notEnd)
      have isFirst : statement tape.budget tape.peek tape.take = .ok first middle := by
        obtain ⟨budget, larger, settled⟩ :=
          ((Filter.eventually_ge_atTop tape.budget).and settles).exists
        rw [← statement_eq_of_le larger]
        exact settled
      rw [Tape.parse_of_ok nonempty isFirst, ih atEnd]
      rfl

/-- The tokens of a program are read as that program. -/
theorem Tape.parse_of_isProgram {tape : Tape} {program : Program}
    (isProgram : IsProgram tape.kinds program) : tape.parse = ⟨program, []⟩ := by
  obtain ⟨after, atEnd, statements⟩ := isProgram.read (List.append_nil _).symm .nil
  exact statements.parse (List.map_eq_nil_iff.mp atEnd)

/-- No token sequence is two programs. -/
theorem Grammar.IsProgram.unique {kinds : List Kind} {first second : Program}
    (isFirst : IsProgram kinds first) (isSecond : IsProgram kinds second) : first = second := by
  let tape : Tape := ⟨none, kinds.map fun kind => ⟨kind, 0, 0⟩, 0, 0⟩
  have isKinds : tape.kinds = kinds := by simp [tape, Tape.kinds, Function.comp_def]
  rw [← isKinds] at isFirst isSecond
  have isParsed := Tape.parse_of_isProgram isFirst
  rw [Tape.parse_of_isProgram isSecond] at isParsed
  exact (congrArg Parsed.program isParsed).symm

/-- Reading is the grammar: a source is read as a program exactly if its tokens are that
program, and where they are none there is something to be said about it. -/
theorem parse_toExcept_iff_isProgram (source : String) :
    (∀ program, (parse source).toExcept = .ok program ↔
      IsProgram ((Cursor.ofText source).words.map Token.kind) program) ∧
    ((∀ program, ¬ IsProgram ((Cursor.ofText source).words.map Token.kind) program) →
      ∃ errors, errors ≠ [] ∧ (parse source).toExcept = .error errors) := by
  have sound (noErrors : (parse source).diagnostics = []) :
      IsProgram ((Cursor.ofText source).words.map Token.kind) (parse source).program :=
    Tape.isProgram_of_parse noErrors
  refine ⟨fun program => ⟨fun isOk => ?_, fun isProgram => ?_⟩, fun noProgram => ?_⟩
  · rw [Parsed.toExcept] at isOk
    split at isOk
    · next noErrors =>
        cases isOk
        exact sound noErrors
    · cases isOk
  · have isParsed : parse source = ⟨program, []⟩ := Tape.parse_of_isProgram isProgram
    rw [isParsed]
    rfl
  · have isWrong : (parse source).diagnostics ≠ [] :=
      fun noErrors => noProgram _ (sound noErrors)
    exact ⟨_, isWrong, if_neg isWrong⟩

end Monkey
