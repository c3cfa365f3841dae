/-
# Listings

The texts that the shell prints about a source: its tokens, one to a line and in
columns, and what is wrong with it.
-/

import Monkey.Parse.Diagnostic
import Monkey.Token.Cursor

namespace Monkey

namespace Text

/-- Fill a text up with spaces on the left; a longer one stays as it is. -/
def alignRight (width : Nat) (text : String) : String :=
  String.ofList (List.replicate (width - text.length) ' ') ++ text

/-- Fill a text up with spaces on the right; a longer one stays as it is. -/
def alignLeft (width : Nat) (text : String) : String :=
  text ++ String.ofList (List.replicate (width - text.length) ' ')

end Text

/-- A token on a line of its own: its range, its class and its text. -/
def Token.listing (token : Token) : String :=
  Text.alignRight 4 (toString token.start) ++ ".." ++ Text.alignLeft 4 (toString token.stop) ++
    " " ++ Text.alignLeft 8 token.kind.className ++ " " ++ token.literal ++ "\n"

/-- All tokens that a cursor has still to read, the end mark last. -/
def Cursor.listing (cursor : Cursor) : String :=
  String.join (cursor.tokens.map Token.listing)

/-- Diagnostics, one to a line, under a heading. -/
def Diagnostic.listing (diagnostics : List Diagnostic) : String :=
  " parser errors:\n" ++
    String.join (diagnostics.map fun diagnostic => "\t" ++ diagnostic.message ++ "\n")

end Monkey
