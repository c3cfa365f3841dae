/-
# Tokens

A token is a kind together with the byte range that it covers. The kinds with a
fixed spelling fall into symbols and keywords, whose spellings are tables here;
the other kinds carry the text that they were read from. Recognition and display
both go through these tables, so they cannot disagree about a spelling.
-/

namespace Monkey

/-- Operators and delimiters. -/
inductive Symbol
  | assign
  | plus
  | minus
  | bang
  | asterisk
  | slash
  | equal
  | notEqual
  | lessThan
  | greaterThan
  | comma
  | semicolon
  | leftParen
  | rightParen
  | leftBrace
  | rightBrace
  deriving DecidableEq, Repr

namespace Symbol

/-- The spelling of a symbol, which is also the name of its class. -/
def text : Symbol → String
  | assign => "="
  | plus => "+"
  | minus => "-"
  | bang => "!"
  | asterisk => "*"
  | slash => "/"
  | equal => "=="
  | notEqual => "!="
  | lessThan => "<"
  | greaterThan => ">"
  | comma => ","
  | semicolon => ";"
  | leftParen => "("
  | rightParen => ")"
  | leftBrace => "\x7b"
  | rightBrace => "\x7d"

/-- The symbol spelled by one character. -/
def ofChar? : Char → Option Symbol
  | '=' => some assign
  | '+' => some plus
  | '-' => some minus
  | '!' => some bang
  | '*' => some asterisk
  | '/' => some slash
  | '<' => some lessThan
  | '>' => some greaterThan
  | ',' => some comma
  | ';' => some semicolon
  | '(' => some leftParen
  | ')' => some rightParen
  | '{' => some leftBrace
  | '}' => some rightBrace
  | _ => none

/-- The longer symbol that an equals sign directly after this one makes of it. -/
def withEquals? : Symbol → Option Symbol
  | assign => some equal
  | bang => some notEqual
  | _ => none

/-- A symbol of one character is written as that character. -/
theorem text_of_ofChar? {c : Char} {symbol : Symbol} (h : ofChar? c = some symbol) :
    symbol.text.toList = [c] := by
  unfold ofChar? at h
  split at h <;> first | (cases h; rfl) | cases h

/-- The longer symbol is written as the shorter one with an equals sign after it. -/
theorem text_of_withEquals? {short long : Symbol} (h : short.withEquals? = some long) :
    long.text.toList = short.text.toList ++ ['='] := by
  cases short <;> cases h <;> rfl

end Symbol

/-- Words that are no identifiers. -/
inductive Keyword
  | function
  | letWord
  | trueWord
  | falseWord
  | ifWord
  | elseWord
  | returnWord
  deriving DecidableEq, Repr

namespace Keyword

/-- The spelling of a keyword. -/
def text : Keyword → String
  | function => "fn"
  | letWord => "let"
  | trueWord => "true"
  | falseWord => "false"
  | ifWord => "if"
  | elseWord => "else"
  | returnWord => "return"

/-- The name of a keyword's class. -/
def className : Keyword → String
  | function => "FUNCTION"
  | letWord => "LET"
  | trueWord => "TRUE"
  | falseWord => "FALSE"
  | ifWord => "IF"
  | elseWord => "ELSE"
  | returnWord => "RETURN"

/-- Every keyword, each once. -/
def all : List Keyword :=
  [function, letWord, trueWord, falseWord, ifWord, elseWord, returnWord]

/-- The keyword that is spelled this way; capitals count. -/
def ofText? (word : String) : Option Keyword :=
  all.find? fun keyword => keyword.text == word

/-- A keyword is found only under its own spelling. -/
theorem text_of_ofText? {word : String} {keyword : Keyword} (h : ofText? word = some keyword) :
    keyword.text = word := by
  simpa using List.find?_some h

@[simp]
theorem ofText?_text (keyword : Keyword) : ofText? keyword.text = some keyword := by
  cases keyword <;> decide

end Keyword

/-- What a token is. Identifiers and integers carry their text, an illegal token the one
character that no other token begins with, and the end of the text has a kind of its own. -/
inductive Kind
  | illegal (char : Char)
  | ident (name : String)
  | int (digits : String)
  | symbol (spelled : Symbol)
  | keyword (word : Keyword)
  | eof
  deriving DecidableEq, Repr

namespace Kind

/-- The text that a token of this kind covers in its source; the end covers none. -/
def literal : Kind → String
  | .illegal char => String.ofList [char]
  | .ident name => name
  | .int digits => digits
  | .symbol spelled => spelled.text
  | .keyword word => word.text
  | .eof => ""

/-- The name of the token class, as diagnostics and token listings show it. -/
def className : Kind → String
  | .illegal _ => "ILLEGAL"
  | .ident _ => "IDENT"
  | .int _ => "INT"
  | .symbol spelled => spelled.text
  | .keyword word => word.className
  | .eof => "EOF"

/-- A word is a keyword where the table has it, and an identifier otherwise. -/
def ofWord (word : String) : Kind :=
  match Keyword.ofText? word with
  | some known => .keyword known
  | none => .ident word

@[simp]
theorem literal_ofWord (word : String) : (ofWord word).literal = word := by
  unfold ofWord
  split
  · next h => exact Keyword.text_of_ofText? h
  · rfl

end Kind

/-- A kind and the byte range, first offset included and last excluded, that it covers. -/
structure Token where
  kind : Kind
  start : Nat
  stop : Nat
  deriving DecidableEq, Repr

/-- The text of a token is that of its kind. -/
def Token.literal (token : Token) : String := token.kind.literal

end Monkey
