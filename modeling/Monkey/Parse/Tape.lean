/-
# Places in a token sequence

Reading a program consumes its tokens from left to right and never looks further
than one token ahead. A tape is such a place. It counts the braces that are open up
to the token taken last; a closing brace with no partner leaves the count at zero.
After an error the tape is where reading stopped, and the count tells which tokens
lie outside every block, so the rest of the broken statement can be skipped.
-/

import Monkey.Parse.Level
import Monkey.Token.Cursor

namespace Monkey

/-- A place in a token sequence: the token taken last, the tokens ahead without the end
mark, the offset of the end, and the number of open braces. -/
structure Tape where
  last : Option Token
  ahead : List Token
  finish : Nat
  depth : Nat
  deriving DecidableEq, Repr

namespace Tape

/-- The tokens that a cursor has still to read, none of them taken. -/
def ofCursor (cursor : Cursor) : Tape := ⟨none, cursor.words, cursor.finish, 0⟩

/-- The next token, without taking it. Past the last one this is the end mark. -/
def peek (tape : Tape) : Token := tape.ahead.head?.getD ⟨.eof, tape.finish, tape.finish⟩

/-- The number of open braces after a token of this kind. -/
def depthAfter (depth : Nat) : Kind → Nat
  | .symbol .leftBrace => depth + 1
  | .symbol .rightBrace => depth - 1
  | _ => depth

/-- Move past the next token. At the end this takes the end mark, again and again. -/
def take (tape : Tape) : Tape :=
  { tape with
    last := some tape.peek
    ahead := tape.ahead.tail
    depth := depthAfter tape.depth tape.peek.kind }

/-- Take one semicolon if it comes next. -/
def skipSemicolon (tape : Tape) : Tape :=
  if tape.peek.kind = .symbol .semicolon then tape.take else tape

/-- Whether the token that comes next carries on a statement whose last block has just
been closed. -/
def goesOn (tape : Tape) : Bool :=
  tape.peek.kind == .keyword .elseWord || tape.peek.kind.continuation?.isSome

/-- Whether a broken statement ends with the token taken last: a semicolon outside every
brace, or the brace that closes its last block if nothing there goes on. -/
def atBoundary (tape : Tape) : Bool :=
  match tape.last.map Token.kind with
  | some (.symbol .semicolon) => tape.depth == 0
  | some (.symbol .rightBrace) => tape.depth == 0 && !tape.goesOn
  | _ => false

/-- Skip the rest of a broken statement. A statement that ends with a brace may still have
its semicolon after it. -/
def recover (tape : Tape) : Tape :=
  if tape.atBoundary then
    if tape.last.map Token.kind = some (.symbol .rightBrace) then tape.skipSemicolon else tape
  else if _ : tape.ahead = [] then tape
  else tape.take.recover
termination_by tape.ahead.length
decreasing_by
  have nonempty : 0 < tape.ahead.length := List.length_pos_iff.mpr (by assumption)
  simp only [take, List.length_tail]
  omega

end Tape

end Monkey
