/-
# Reading tokens from a text

A cursor stands in a text and hands out the tokens from there on. Two readers
share it: `next` answers the end of the text for as long as it is asked, and
`next?` stops after it has handed out one end itself. The tokens that remain are
a property of the cursor alone, so a reader that starts in the middle of a text
sees what is left of it and nothing else.
-/

import Monkey.Text.Blank
import Monkey.Text.Bytes
import Monkey.Token.Basic

namespace Monkey

open Text

/-- The characters that a word may begin with: ASCII letters and the underscore. -/
def isLetter (c : Char) : Bool := c.isAlpha || c == '_'

/-- The characters that a word may go on with: those, and ASCII digits. -/
def isWordChar (c : Char) : Bool := c.isAlphanum || c == '_'

namespace Kind

/-- Read the longest token that begins with `c`. Of the rest of the text it takes as many
characters as still belong to the token, and returns the others. -/
def scan (c : Char) (rest : List Char) : Kind × List Char :=
  if isLetter c then
    (ofWord (String.ofList (c :: rest.takeWhile isWordChar)), rest.dropWhile isWordChar)
  else if c.isDigit then
    (.int (String.ofList (c :: rest.takeWhile Char.isDigit)), rest.dropWhile Char.isDigit)
  else
    match Symbol.ofChar? c with
    | none => (.illegal c, rest)
    | some short =>
      match short.withEquals?, rest with
      | some long, '=' :: rest => (.symbol long, rest)
      | _, _ => (.symbol short, rest)

/-- The text of the token and the text left over make up the text that was read. -/
theorem literal_append_scan (c : Char) (rest : List Char) :
    (scan c rest).1.literal.toList ++ (scan c rest).2 = c :: rest := by
  unfold scan
  split
  · simp [List.takeWhile_append_dropWhile]
  split
  · simp [literal, List.takeWhile_append_dropWhile]
  split
  · simp [literal]
  · next short isShort =>
    split
    · next isLong => simp [literal, Symbol.text_of_withEquals? isLong, Symbol.text_of_ofChar? isShort]
    · simp [literal, Symbol.text_of_ofChar? isShort]

/-- No text at all is read as the end. -/
theorem scan_ne_eof (c : Char) (rest : List Char) : (scan c rest).1 ≠ .eof := by
  unfold scan ofWord
  repeat' split
  all_goals simp

/-- A token is never empty, so what is left over is shorter than what was read. -/
theorem length_scan_le (c : Char) (rest : List Char) : (scan c rest).2.length ≤ rest.length := by
  unfold scan
  split
  · exact (List.dropWhile_suffix _).length_le
  split
  · exact (List.dropWhile_suffix _).length_le
  split
  · exact Nat.le_refl _
  · split
    · simp
    · exact Nat.le_refl _

end Kind

/-- A place in a text: the characters from there on, the byte offset, and whether the
reader that stops has already handed out the end. -/
structure Cursor where
  rest : List Char
  offset : Nat
  exhausted : Bool
  deriving DecidableEq, Repr

namespace Cursor

/-- The beginning of a text. -/
def ofText (text : String) : Cursor := ⟨text.toList, 0, false⟩

/-- The byte offset at which the text ends. No reading changes it. -/
def finish (cursor : Cursor) : Nat := cursor.offset + byteLength cursor.rest

/-- The token that stands for the end of the text. -/
def endMark (cursor : Cursor) : Token := ⟨.eof, cursor.finish, cursor.finish⟩

/-- Skip blanks and read one token. At the end this answers the end mark, however often
it is asked. -/
def next (cursor : Cursor) : Token × Cursor :=
  let start := cursor.offset + byteLength (cursor.rest.takeWhile isBlank)
  match cursor.rest.dropWhile isBlank with
  | [] => (⟨.eof, start, start⟩, { cursor with rest := [], offset := start })
  | c :: rest =>
    let scanned := Kind.scan c rest
    let stop := start + byteLength scanned.1.literal.toList
    (⟨scanned.1, start, stop⟩, { cursor with rest := scanned.2, offset := stop })

/-- Read one token as `next` does, but answer nothing once the end has been answered here. -/
def next? (cursor : Cursor) : Option Token × Cursor :=
  if cursor.exhausted then
    (none, cursor)
  else
    let read := cursor.next
    (some read.1, { read.2 with exhausted := read.1.kind == .eof })

/-- Reading a token moves past at least one character. -/
theorem length_next_lt {cursor : Cursor} (h : cursor.next.1.kind ≠ .eof) :
    cursor.next.2.rest.length < cursor.rest.length := by
  have skipped := (List.dropWhile_suffix (l := cursor.rest) isBlank).length_le
  unfold next at h ⊢
  generalize List.dropWhile isBlank cursor.rest = afterBlanks at *
  cases afterBlanks with
  | nil => simp at h
  | cons c rest =>
    have scanned := Kind.length_scan_le c rest
    simp only [List.length_cons] at skipped ⊢
    omega

/-- The tokens that are left before the end. -/
def words (cursor : Cursor) : List Token :=
  if _ : cursor.next.1.kind = .eof then [] else cursor.next.1 :: cursor.next.2.words
termination_by cursor.rest.length
decreasing_by exact length_next_lt (by assumption)

/-- All tokens that are left, the end mark last. -/
def tokens (cursor : Cursor) : List Token := cursor.words ++ [cursor.endMark]

/-- Take `count` tokens without looking at them. -/
def skip (count : Nat) (cursor : Cursor) : Cursor :=
  count.repeat (fun cursor => cursor.next.2) cursor

/-- The byte offset of the end is the same from every place in the text. -/
@[simp]
theorem finish_next (cursor : Cursor) : cursor.next.2.finish = cursor.finish := by
  have cut := byteLength_takeWhile_add_dropWhile isBlank cursor.rest
  unfold next finish
  split
  · next isEnd => simp [isEnd] at cut ⊢; omega
  · next c rest isRest =>
    have read := congrArg byteLength (Kind.literal_append_scan c rest)
    simp only [isRest, byteLength_append, byteLength_cons] at cut read ⊢
    omega

/-- At the end of the text the reader answers the end mark. -/
theorem next_eq_endMark {cursor : Cursor} (h : cursor.next.1.kind = .eof) :
    cursor.next.1 = cursor.endMark := by
  have cut := byteLength_takeWhile_add_dropWhile isBlank cursor.rest
  unfold next endMark finish at *
  split at h
  · next isEnd => simp [isEnd] at cut ⊢; omega
  · exact absurd h (Kind.scan_ne_eof _ _)

end Cursor

end Monkey
