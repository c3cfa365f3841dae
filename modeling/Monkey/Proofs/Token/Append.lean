/-
# Texts one after the other

A text that ends with a semicolon, blanks aside, can be followed by any other. No
semicolon belongs to a longer token, and the tokens before it are cut off by what comes
behind them, so the tokens of the whole are those of the two texts. The second text only
stands further on.
-/

import Monkey.Token.Cursor

namespace Monkey

open Text

/-- The characters of a text take up the bytes of the text. -/
theorem Text.byteLength_toList (text : String) : byteLength text.toList = text.utf8ByteSize := by
  have sizes (characters : List Char) :
      byteLength characters = (String.ofList characters).utf8ByteSize := by
    induction characters with
    | nil => rfl
    | cons c characters ih =>
        rw [byteLength_cons, ih, String.ofList_cons, String.utf8ByteSize_append,
          String.utf8ByteSize_singleton]
  rw [sizes, String.ofList_toList]

/-- The same token, so many bytes further on. -/
def Token.shift (bytes : Nat) (token : Token) : Token :=
  ⟨token.kind, token.start + bytes, token.stop + bytes⟩

/-- A run of characters that ends within a text ends there if more text follows. -/
theorem takeWhile_append_of_stops {p : Char → Bool} {text : List Char}
    (stops : text.dropWhile p ≠ []) (more : List Char) :
    (text ++ more).takeWhile p = text.takeWhile p ∧
      (text ++ more).dropWhile p = text.dropWhile p ++ more := by
  induction text with
  | nil => exact absurd rfl stops
  | cons c text ih =>
      by_cases inside : p c = true
      · rw [List.dropWhile_cons_of_pos inside] at stops
        obtain ⟨sameRun, sameRest⟩ := ih stops
        rw [List.cons_append, List.takeWhile_cons_of_pos inside, List.takeWhile_cons_of_pos inside,
          List.dropWhile_cons_of_pos inside, List.dropWhile_cons_of_pos inside, sameRun]
        exact ⟨rfl, sameRest⟩
      · rw [List.cons_append, List.takeWhile_cons_of_neg inside, List.takeWhile_cons_of_neg inside,
          List.dropWhile_cons_of_neg inside, List.dropWhile_cons_of_neg inside]
        exact ⟨rfl, rfl⟩

/-- A run that does not end within a text goes on into what follows. -/
theorem takeWhile_append_of_runs {p : Char → Bool} {text : List Char}
    (runs : text.dropWhile p = []) (more : List Char) :
    (text ++ more).takeWhile p = text ++ more.takeWhile p ∧
      (text ++ more).dropWhile p = more.dropWhile p := by
  have whole : text.takeWhile p = text := by
    have cut : text.takeWhile p ++ text.dropWhile p = text := List.takeWhile_append_dropWhile
    rwa [runs, List.append_nil] at cut
  have inside : ∀ c ∈ text, p c = true := by
    rw [← whole]
    exact List.all_eq_true.mp List.all_takeWhile
  exact ⟨List.takeWhile_append_of_pos inside, List.dropWhile_append_of_pos inside⟩

/-- A token stays what it is if more text follows, unless it reaches up to the end of its own
text. A semicolon may do so. -/
theorem Kind.scan_append {c : Char} {rest : List Char}
    (ends : (scan c rest).1 = .symbol .semicolon ∨ (scan c rest).2 ≠ []) (more : List Char) :
    scan c (rest ++ more) = ((scan c rest).1, (scan c rest).2 ++ more) := by
  unfold scan at ends ⊢
  split
  · next letter =>
      rw [if_pos letter] at ends
      have stops : rest.dropWhile isWordChar ≠ [] := by
        rcases ends with isSemicolon | stops
        · unfold ofWord at isSemicolon
          split at isSemicolon <;> cases isSemicolon
        · exact stops
      obtain ⟨sameRun, sameRest⟩ := takeWhile_append_of_stops stops more
      rw [sameRun, sameRest]
  · next noLetter =>
      rw [if_neg noLetter] at ends
      split
      · next digit =>
          rw [if_pos digit] at ends
          have stops : rest.dropWhile Char.isDigit ≠ [] := by
            rcases ends with isSemicolon | stops
            · cases isSemicolon
            · exact stops
          obtain ⟨sameRun, sameRest⟩ := takeWhile_append_of_stops stops more
          rw [sameRun, sameRest]
      · next noDigit =>
          rw [if_neg noDigit] at ends
          cases isShort : Symbol.ofChar? c with
          | none => rfl
          | some short =>
              rw [isShort] at ends
              cases rest with
              | nil =>
                  have isSemicolon : short = .semicolon := by simpa using ends
                  rw [isSemicolon]
                  rfl
              | cons d rest =>
                  cases isLong : short.withEquals? with
                  | none => simp [isLong]
                  | some long =>
                      by_cases equals : d = '='
                      · simp [isLong, equals]
                      · simp [isLong, equals]

namespace Cursor

/-- The same place, with more text at the end. -/
def append (cursor : Cursor) (more : List Char) : Cursor :=
  { cursor with rest := cursor.rest ++ more }

/-- The same text, so many bytes further on. -/
def shift (bytes : Nat) (cursor : Cursor) : Cursor :=
  { cursor with offset := cursor.offset + bytes }

theorem words_of_end {cursor : Cursor} (atEnd : cursor.next.1.kind = .eof) : cursor.words = [] := by
  rw [words, dif_pos atEnd]

theorem words_of_next {cursor : Cursor} (notEnd : cursor.next.1.kind ≠ .eof) :
    cursor.words = cursor.next.1 :: cursor.next.2.words := by
  rw [words, dif_neg notEnd]

/-- The words left at a place are known from the next token and the place behind it. -/
theorem words_congr {cursor other : Cursor} (same : cursor.next = other.next) :
    cursor.words = other.words := by
  by_cases atEnd : cursor.next.1.kind = .eof
  · have otherAtEnd : other.next.1.kind = .eof := same ▸ atEnd
    rw [words_of_end atEnd, words_of_end otherAtEnd]
  · have otherNotEnd : other.next.1.kind ≠ .eof := same ▸ atEnd
    rw [words_of_next atEnd, words_of_next otherNotEnd, same]

theorem words_of_nil {cursor : Cursor} (isNil : cursor.rest = []) : cursor.words = [] := by
  apply words_of_end
  rw [next, isNil]
  rfl

theorem exhausted_next (cursor : Cursor) : cursor.next.2.exhausted = cursor.exhausted := by
  rw [next]
  split <;> rfl

/-- Reading is the same further on, with all offsets moved. -/
theorem next_shift (bytes : Nat) (cursor : Cursor) :
    (cursor.shift bytes).next = (cursor.next.1.shift bytes, cursor.next.2.shift bytes) := by
  unfold next shift Token.shift
  split
  · next isEnd => simp [isEnd, Nat.add_right_comm]
  · next c rest isRest => simp [isRest, Nat.add_right_comm]

theorem words_shift (bytes : Nat) (cursor : Cursor) :
    (cursor.shift bytes).words = cursor.words.map (Token.shift bytes) := by
  induction cursor using words.induct with
  | case1 cursor atEnd =>
      rw [words_of_end atEnd, words_of_end]
      · rfl
      · rw [next_shift]
        exact atEnd
  | case2 cursor notEnd ih =>
      rw [words_of_next notEnd, words_of_next, next_shift, ih]
      · rfl
      · rw [next_shift]
        exact notEnd

/-- Where only blanks are left, reading goes on in the text that follows. -/
theorem next_append_of_end {cursor : Cursor} (atEnd : cursor.next.1.kind = .eof)
    (more : List Char) :
    (cursor.append more).next = (⟨more, cursor.finish, cursor.exhausted⟩ : Cursor).next := by
  have blank : cursor.rest.dropWhile isBlank = [] := by
    unfold next at atEnd
    split at atEnd
    · assumption
    · exact absurd atEnd (Kind.scan_ne_eof _ _)
  obtain ⟨sameRun, sameRest⟩ := takeWhile_append_of_runs blank more
  simp only [next, append, finish, sameRun, sameRest, byteLength_append, Nat.add_assoc]

/-- A token is read alike if more text follows, unless nothing is left behind it. -/
theorem next_append {cursor : Cursor} (notEnd : cursor.next.1.kind ≠ .eof)
    (ends : cursor.next.1.kind = .symbol .semicolon ∨ cursor.next.2.rest ≠ [])
    (more : List Char) :
    (cursor.append more).next = (cursor.next.1, cursor.next.2.append more) := by
  unfold next at notEnd ends ⊢
  split at notEnd
  · exact absurd rfl notEnd
  · next c rest isRest =>
      rw [isRest] at ends
      have stops : cursor.rest.dropWhile isBlank ≠ [] := by simp [isRest]
      obtain ⟨sameRun, sameRest⟩ := takeWhile_append_of_stops stops more
      rw [isRest] at sameRest
      simp only [append, sameRun, sameRest, List.cons_append, Kind.scan_append ends more]

/-- If the last token of a text is a semicolon, the tokens of what follows come behind it. -/
theorem words_append (cursor : Cursor) (more : List Char)
    (ends : ∀ token ∈ cursor.words.getLast?, token.kind = .symbol .semicolon) :
    (cursor.append more).words =
      cursor.words ++ (⟨more, cursor.finish, cursor.exhausted⟩ : Cursor).words := by
  induction cursor using words.induct with
  | case1 cursor atEnd =>
      rw [words_of_end atEnd, words_congr (next_append_of_end atEnd more), List.nil_append]
  | case2 cursor notEnd ih =>
      rw [words_of_next notEnd] at ends
      have endsHere : cursor.next.1.kind = .symbol .semicolon ∨ cursor.next.2.rest ≠ [] := by
        by_cases isNil : cursor.next.2.rest = []
        · rw [words_of_nil isNil] at ends
          exact Or.inl (ends _ rfl)
        · exact Or.inr isNil
      have endsBehind : ∀ token ∈ cursor.next.2.words.getLast?,
          token.kind = .symbol .semicolon := by
        intro token isLast
        apply ends
        rw [List.getLast?_cons, isLast]
        rfl
      have isNext := next_append notEnd endsHere more
      have isWords : (cursor.append more).words =
          cursor.next.1 :: (cursor.next.2.append more).words := by
        rw [words_of_next, isNext]
        rw [isNext]
        exact notEnd
      rw [isWords, ih endsBehind, words_of_next notEnd, finish_next, exhausted_next]
      rfl

theorem finish_ofText (text : String) : (ofText text).finish = text.utf8ByteSize := by
  rw [finish, ofText, Nat.zero_add, byteLength_toList]

/-- The tokens of one text after the other. -/
theorem words_ofText_append {first : String}
    (ends : ∀ token ∈ (ofText first).words.getLast?, token.kind = .symbol .semicolon)
    (second : String) :
    (ofText (first ++ second)).words =
      (ofText first).words ++ (ofText second).words.map (Token.shift first.utf8ByteSize) := by
  have isText : ofText (first ++ second) = (ofText first).append second.toList := by
    rw [ofText, String.toList_append]
    rfl
  have isShifted : (⟨second.toList, (ofText first).finish, false⟩ : Cursor) =
      (ofText second).shift first.utf8ByteSize := by
    rw [finish_ofText, shift, ofText, Nat.zero_add]
  rw [isText, words_append _ _ ends, ← words_shift, ← isShifted]
  rfl

end Cursor

end Monkey
