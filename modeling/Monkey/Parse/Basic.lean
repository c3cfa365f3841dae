/-
# Reading a program

Operands are read by their first token, and an operand is carried on for as long as
the next token binds more tightly than the construct around it. Blocks, argument
lists and operands contain one another, so the rules are mutually recursive and
bounded by a budget that every rule passes on with one unit less; a budget linear in
the number of tokens always suffices, and no caller sees it.

A rule that fails leaves the tape where it stopped. The loop over statements records
the diagnostic, skips the rest of that statement and goes on behind it, so one source
can yield several diagnostics along with the statements that were sound.
-/

import Monkey.Parse.Diagnostic
import Monkey.Parse.Tape

namespace Monkey

/-- Why a rule did not answer. Running out of budget is kept apart from rejection. -/
inductive Stop
  | rejected (diagnostic : Diagnostic)
  | exhausted
  deriving DecidableEq, Repr

/-- A rule moves along a tape; on failure the tape is where the rule stopped. -/
abbrev Parser := EStateM Stop Tape

namespace Parser

/-- The next token, not taken. -/
def peek : Parser Token := fun tape => .ok tape.peek tape

/-- Take the next token. -/
def take : Parser Token := fun tape => .ok tape.peek tape.take

/-- Fail with a diagnostic. -/
def reject {α : Type} (diagnostic : Diagnostic) : Parser α :=
  throw (.rejected diagnostic)

/-- Fail because the budget is spent. -/
def exhausted {α : Type} : Parser α := throw .exhausted

/-- Take the next token, which has to be the given symbol. -/
def symbol (spelled : Symbol) : Parser Unit := do
  let token ← peek
  if token.kind = .symbol spelled then
    let _ ← take
    pure ()
  else
    reject (.unexpected (.symbol spelled) token)

/-- Take the next token, which has to be an identifier. -/
def name : Parser String := do
  let token ← peek
  match token.kind with
  | .ident name => do
    let _ ← take
    pure name
  | _ => reject (.unexpected .identifier token)

/-- Take one semicolon if it comes next. -/
def skipSemicolon : Parser Unit := fun tape => .ok () tape.skipSemicolon

/-- Elements up to a closing parenthesis, each with a comma before it. -/
def moreElements {α : Type} (element : Parser α) : Nat → Parser (List α)
  | 0 => exhausted
  | budget + 1 => do
    if (← peek).kind = .symbol .comma then
      let _ ← take
      let first ← element
      let others ← moreElements element budget
      pure (first :: others)
    else
      symbol .rightParen
      pure []

/-- Elements with commas between them, up to a closing parenthesis; there may be none. -/
def elements {α : Type} (element : Parser α) (budget : Nat) : Parser (List α) := do
  if (← peek).kind = .symbol .rightParen then
    let _ ← take
    pure []
  else
    let first ← element
    let others ← moreElements element budget
    pure (first :: others)

/-- The largest integer that a literal may denote, one less than 2 to the power of 63. -/
def largestLiteral : Nat := 9223372036854775807

/-- The integer that the digits denote, if it fits. -/
def integer (token : Token) (digits : String) : Parser Expr :=
  let value := Nat.ofDigitChars 10 digits.toList 0
  if value ≤ largestLiteral then
    pure (.int (Int64.ofNat value))
  else
    reject (.integerTooLarge token)

mutual

/-- An expression that begins with a token just taken, and that reaches as far as tokens
bind more tightly than the level. -/
def expression : Nat → Level → Token → Parser Expr
  | 0, _, _ => exhausted
  | budget + 1, level, token => do
    let left ← operand budget token
    extend budget level left

/-- An operand that begins with a token just taken. -/
def operand : Nat → Token → Parser Expr
  | 0, _ => exhausted
  | budget + 1, token =>
    match token.kind with
    | .ident name => pure (.ident name)
    | .int digits => integer token digits
    | .keyword .trueWord => pure (.bool true)
    | .keyword .falseWord => pure (.bool false)
    | .symbol .minus => do
      let inner ← expression budget .prefixOp (← take)
      pure (.prefixOp .minus inner)
    | .symbol .bang => do
      let inner ← expression budget .prefixOp (← take)
      pure (.prefixOp .bang inner)
    | .symbol .leftParen => do
      let inner ← expression budget .lowest (← take)
      symbol .rightParen
      pure inner
    | .keyword .ifWord => do
      symbol .leftParen
      let condition ← expression budget .lowest (← take)
      symbol .rightParen
      symbol .leftBrace
      let consequence ← block budget
      if (← peek).kind = .keyword .elseWord then
        let _ ← take
        symbol .leftBrace
        let alternative ← block budget
        pure (.ifElse condition consequence (some alternative))
      else
        pure (.ifElse condition consequence none)
    | .keyword .function => do
      symbol .leftParen
      let parameters ← elements name budget
      symbol .leftBrace
      let body ← block budget
      pure (.fn parameters body)
    | .illegal _ => reject (.illegal token)
    | _ => reject (.noOperand token)

/-- Carry an operand on for as long as the next token binds more tightly than the level. -/
def extend : Nat → Level → Expr → Parser Expr
  | 0, _, _ => exhausted
  | budget + 1, level, left => do
    match (← peek).kind.continuationAbove? level with
    | none => pure left
    | some (.operator op) => do
      let _ ← take
      let right ← expression budget op.level (← take)
      extend budget level (.infixOp op left right)
    | some .call => do
      let _ ← take
      let arguments ← elements (do expression budget .lowest (← take)) budget
      extend budget level (.call left arguments)

/-- The statements up to a closing brace, after the opening one. -/
def block : Nat → Parser Block
  | 0 => exhausted
  | budget + 1 => do
    let token ← take
    match token.kind with
    | .symbol .rightBrace => pure []
    | .eof => reject (.unexpected (.symbol .rightBrace) token)
    | _ => do
      let first ← statement budget token
      let others ← block budget
      pure (first :: others)

/-- A statement that begins with a token just taken, and the semicolon after it if there
is one. -/
def statement : Nat → Token → Parser Stmt
  | 0, _ => exhausted
  | budget + 1, token =>
    match token.kind with
    | .keyword .letWord => do
      let bound ← name
      symbol .assign
      let value ← expression budget .lowest (← take)
      skipSemicolon
      pure (.letBind bound value)
    | .keyword .returnWord => do
      let value ← expression budget .lowest (← take)
      skipSemicolon
      pure (.ret value)
    | _ => do
      let value ← expression budget .lowest token
      skipSemicolon
      pure (.expr value)

end

end Parser

/-- What became of a token sequence: the sound statements and the diagnostics, each in
the order of the source. -/
structure Parsed where
  program : Program
  diagnostics : List Diagnostic
  deriving DecidableEq

namespace Parsed

/-- Put a sound statement in front. -/
def addStatement (stmt : Stmt) (parsed : Parsed) : Parsed :=
  { parsed with program := stmt :: parsed.program }

/-- Put a diagnostic in front. -/
def addDiagnostic (diagnostic : Diagnostic) (parsed : Parsed) : Parsed :=
  { parsed with diagnostics := diagnostic :: parsed.diagnostics }

/-- The program if nothing was wrong, and what was wrong otherwise. -/
def toExcept (parsed : Parsed) : Except (List Diagnostic) Program :=
  if parsed.diagnostics = [] then .ok parsed.program else .error parsed.diagnostics

end Parsed

namespace Tape

/-- Units of budget with which any statement on the tape can be read. -/
def budget (tape : Tape) : Nat := 4 * tape.ahead.length + 4

/-- Read one statement, which begins with the next token, and stand behind it. Behind a
broken one that is where the next can begin. At the end there is none. -/
def readStatement (tape : Tape) : Option (Except Diagnostic Stmt × Tape) :=
  if tape.ahead = [] then none
  else
    match Parser.statement tape.budget tape.peek tape.take with
    | .ok stmt after => some (.ok stmt, after)
    | .error (.rejected diagnostic) stopped => some (.error diagnostic, stopped.recover)
    | .error .exhausted _ => none

/-- Read at most `count` statements, sound or broken. -/
def parseUpTo : Nat → Tape → Parsed
  | 0, _ => ⟨[], []⟩
  | count + 1, tape =>
    match tape.readStatement with
    | none => ⟨[], []⟩
    | some (.ok stmt, after) => (parseUpTo count after).addStatement stmt
    | some (.error diagnostic, after) => (parseUpTo count after).addDiagnostic diagnostic

/-- Read everything on the tape. Each statement takes a token at least, so there are no
more of them than tokens. -/
def parse (tape : Tape) : Parsed := tape.parseUpTo tape.ahead.length

end Tape

/-- Read what is left of a text. -/
def Cursor.parse (cursor : Cursor) : Parsed := (Tape.ofCursor cursor).parse

/-- Read a whole source text. -/
def parse (source : String) : Parsed := (Cursor.ofText source).parse

end Monkey
