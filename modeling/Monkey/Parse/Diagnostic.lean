/-
# Diagnostics

What can be wrong with a token sequence, as causes. Each diagnostic names the one
token at which reading stopped, so its place in the source is that token's range;
the wording is a function of the cause.
-/

import Monkey.Token.Basic

namespace Monkey

/-- What a grammar rule asked for. Rules only ever insist on a name or on a symbol. -/
inductive Expected
  | identifier
  | symbol (spelled : Symbol)
  deriving DecidableEq, Repr

/-- The name of the token class that was asked for. -/
def Expected.className : Expected → String
  | identifier => "IDENT"
  | symbol spelled => spelled.text

/-- The causes for which a statement is rejected. -/
inductive Diagnostic
  /-- A rule needs one class of token here, and the next token is of another. -/
  | unexpected (expected : Expected) (got : Token)
  /-- An operand is needed here, and no operand begins with this token. -/
  | noOperand (token : Token)
  /-- The character belongs to no token of the language. -/
  | illegal (token : Token)
  /-- The digits denote a number beyond the largest integer. -/
  | integerTooLarge (token : Token)
  deriving DecidableEq, Repr

namespace Diagnostic

/-- The token at which reading stopped. -/
def token : Diagnostic → Token
  | unexpected _ got => got
  | noOperand token => token
  | illegal token => token
  | integerTooLarge token => token

/-- The text that the user sees. -/
def message : Diagnostic → String
  | unexpected expected got =>
    "expected next token to be " ++ expected.className ++ ", got " ++ got.kind.className ++
      " instead"
  | noOperand token => "no prefix parse function for " ++ token.kind.className ++ " found"
  | illegal token => "illegal token `" ++ token.literal ++ "`"
  | integerTooLarge token => "could not parse `" ++ token.literal ++ "` as integer"

end Diagnostic

end Monkey
