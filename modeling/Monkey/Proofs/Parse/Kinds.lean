/-
# What a program is read from

The reader is given the kinds of the tokens and nothing else. To see it, the kinds are laid
out with their numbers in place of offsets: every text with these kinds is an image of that
one sequence, each number exchanged for the token that has it, so all of them are read to one
program, and the diagnostics of any two of them name tokens with the same numbers. A
diagnostic never names a token from elsewhere, since it would then change with a token that
is not there.

Where in its text a cursor stands does not matter either. The tokens that have been taken are
gone, however they were taken, and what is left is read as a text of its own.
-/

import Mathlib
import Monkey.Proofs.Parse.Recovery
import Monkey.Proofs.Token.Append

namespace Monkey

open Text

namespace Diagnostic

theorem token_map (f : Token → Token) (diagnostic : Diagnostic) :
    (diagnostic.map f).token = f diagnostic.token := by
  cases diagnostic <;> rfl

/-- The same cause, at tokens that have the same number in their sequences. -/
def Corresponds (first second : List Token) (diagnostic other : Diagnostic) : Prop :=
  other = diagnostic.map (fun _ => other.token) ∧
    ∃ index : Nat, first[index]? = some diagnostic.token ∧ second[index]? = some other.token

end Diagnostic

namespace Tape

/-- A diagnostic names a token that is ahead, or the end. -/
theorem token_mem_of_parse {tape : Tape} {diagnostic : Diagnostic}
    (isGiven : diagnostic ∈ tape.parse.diagnostics) :
    diagnostic.token ∈ tape.ahead ++ [⟨.eof, tape.finish, tape.finish⟩] := by
  -- every token but these is moved on by one byte, which the reader cannot notice
  let tokens := tape.ahead ++ [⟨.eof, tape.finish, tape.finish⟩]
  let moved : Token → Token := fun token => if token ∈ tokens then token else token.shift 1
  have stays {token : Token} (isMember : token ∈ tokens) : moved token = token :=
    if_pos isMember
  have kinds : ∀ token, (moved token).kind = token.kind := by
    intro token
    by_cases isMember : token ∈ tokens
    · rw [stays isMember]
    · rw [show moved token = token.shift 1 from if_neg isMember]
      rfl
  have related : Image moved { tape with last := none } { tape with last := none } :=
    { last := rfl
      ahead := by
        have allStay : tape.ahead.map moved = tape.ahead.map id :=
          List.map_congr_left fun token isMember => stays (List.mem_append_left _ isMember)
        rw [allStay, List.map_id]
      finish := stays (List.mem_append_right _ (List.mem_singleton.mpr rfl))
      depth := rfl }
  have isParsed : tape.parse = tape.parse.map moved := by
    have read := related.parse kinds
    rwa [parse_eq_of_last] at read
  have sameDiagnostics : tape.parse.diagnostics.map (Diagnostic.map moved) =
      tape.parse.diagnostics.map id := by
    rw [List.map_id]
    exact (congrArg Parsed.diagnostics isParsed).symm
  have isFixed : diagnostic.map moved = diagnostic :=
    List.map_inj_left.mp sameDiagnostics diagnostic isGiven
  by_contra notMember
  have isMoved : diagnostic.token.shift 1 = diagnostic.token := by
    have sameToken := congrArg Diagnostic.token isFixed
    rw [Diagnostic.token_map] at sameToken
    exact (if_neg notMember).symm.trans sameToken
  exact Nat.succ_ne_self _ (congrArg Token.start isMoved)

/-- A sequence of kinds, each standing at its own number, with the end behind the last. -/
def numbered (kinds : List Kind) : Tape :=
  ⟨none, kinds.mapIdx fun index kind => ⟨kind, index, index⟩, kinds.length, 0⟩

end Tape

namespace Cursor

variable {cursor : Cursor} {kinds : List Kind}

/-- The kind of a token, with the place of the token that has its number here. -/
def located (cursor : Cursor) (token : Token) : Token :=
  match cursor.tokens[token.start]? with
  | some here => ⟨token.kind, here.start, here.stop⟩
  | none => token

theorem kind_located (token : Token) : (cursor.located token).kind = token.kind := by
  unfold located
  split <;> rfl

theorem located_eq {index : Nat} {here : Token} (isHere : cursor.tokens[index]? = some here) :
    cursor.located ⟨here.kind, index, index⟩ = here := by
  rw [located, isHere]

theorem length_words (isKinds : cursor.words.map Token.kind = kinds) :
    cursor.words.length = kinds.length := by
  rw [← isKinds, List.length_map]

/-- The end has the number that comes next. -/
theorem tokens_end (isKinds : cursor.words.map Token.kind = kinds) :
    cursor.tokens[kinds.length]? = some cursor.endMark := by
  rw [tokens, ← length_words isKinds, List.getElem?_append_right (Nat.le_refl _), Nat.sub_self]
  rfl

/-- The token with a given number, found through its kind. -/
theorem tokens_located (isKinds : cursor.words.map Token.kind = kinds) {index : Nat}
    (isBelow : index < kinds.length) :
    cursor.tokens[index]? = some (cursor.located ⟨kinds[index], index, index⟩) := by
  subst isKinds
  rw [List.length_map] at isBelow
  have isHere : cursor.tokens[index]? = some cursor.words[index] := by
    rw [tokens, List.getElem?_append_left isBelow, List.getElem?_eq_getElem isBelow]
  rw [isHere, List.getElem_map, located_eq isHere]

/-- A cursor has, in place of the numbered kinds, its own tokens. -/
theorem image_numbered (isKinds : cursor.words.map Token.kind = kinds) :
    Tape.Image cursor.located (.numbered kinds) (.ofCursor cursor) where
  last := rfl
  ahead := by
    apply List.ext_getElem
    · simpa [Tape.ofCursor, Tape.numbered] using length_words isKinds
    · intro index inWords inKinds
      have isBelow : index < kinds.length := length_words isKinds ▸ inWords
      have isToken := tokens_located isKinds isBelow
      have inTokens : index < cursor.words.length := inWords
      rw [tokens, List.getElem?_append_left inTokens, List.getElem?_eq_getElem inTokens] at isToken
      simpa [Tape.ofCursor, Tape.numbered] using Option.some.inj isToken
  finish := located_eq (tokens_end isKinds)
  depth := rfl

/-- Every token of the numbered kinds stands for the one that has its number here. -/
theorem tokens_of_numbered (isKinds : cursor.words.map Token.kind = kinds) {token : Token}
    (isMember : token ∈ (Tape.numbered kinds).ahead ++ [⟨.eof, kinds.length, kinds.length⟩]) :
    cursor.tokens[token.start]? = some (cursor.located token) := by
  rcases List.mem_append.mp isMember with isAhead | isEnd
  · obtain ⟨index, isBelow, rfl⟩ := List.mem_mapIdx.mp isAhead
    exact tokens_located isKinds isBelow
  · rw [List.mem_singleton.mp isEnd]
    have isHere := tokens_end isKinds
    exact isHere.trans (congrArg some (located_eq isHere).symm)

theorem parse_eq_numbered (isKinds : cursor.words.map Token.kind = kinds) :
    cursor.parse = (Tape.numbered kinds).parse.map cursor.located :=
  (image_numbered isKinds).parse kind_located

/-- The places that are reached when so many tokens have been taken, by either reader. One
that has stopped takes no more. -/
inductive Taken (start : Cursor) : Nat → Cursor → Prop
  | none : Taken start 0 start
  | next {count : Nat} {cursor : Cursor} (before : Taken start count cursor) :
    Taken start (count + 1) cursor.next.2
  | next? {count : Nat} {cursor : Cursor} (before : Taken start count cursor) :
    Taken start (count + 1) cursor.next?.2

/-- Taking a token leaves a later part of the same text. -/
theorem rest_eq_append_next (cursor : Cursor) :
    ∃ taken, cursor.rest = taken ++ cursor.next.2.rest ∧
      cursor.next.2.offset = cursor.offset + byteLength taken := by
  have cut : cursor.rest.takeWhile isBlank ++ cursor.rest.dropWhile isBlank = cursor.rest :=
    List.takeWhile_append_dropWhile
  unfold next
  split
  · next isEnd =>
      rw [isEnd, List.append_nil] at cut
      exact ⟨cursor.rest.takeWhile isBlank, by rw [List.append_nil, cut], rfl⟩
  · next c rest isRest =>
      refine ⟨cursor.rest.takeWhile isBlank ++ (Kind.scan c rest).1.literal.toList, ?_, ?_⟩
      · rw [List.append_assoc, Kind.literal_append_scan, ← isRest, cut]
      · rw [byteLength_append, ← Nat.add_assoc]

theorem words_next (cursor : Cursor) : cursor.next.2.words = cursor.words.drop 1 := by
  by_cases atEnd : cursor.next.1.kind = .eof
  · rw [words_of_end atEnd, List.drop_nil]
    apply words_of_nil
    unfold next at atEnd ⊢
    split at atEnd
    · rfl
    · exact absurd atEnd (Kind.scan_ne_eof _ _)
  · rw [words_of_next atEnd]
    rfl

/-- Whether a reader has stopped makes no difference to what is left of the text. -/
theorem words_of_exhausted (cursor : Cursor) (exhausted : Bool) :
    ({ cursor with exhausted := exhausted } : Cursor).words = cursor.words := by
  have isNext (cursor : Cursor) : ({ cursor with exhausted := exhausted } : Cursor).next =
      (cursor.next.1, { cursor.next.2 with exhausted := exhausted }) := by
    cases isRest : cursor.rest.dropWhile isBlank <;> simp [next, isRest]
  induction cursor using words.induct with
  | case1 cursor atEnd =>
      rw [words_of_end atEnd, words_of_end]
      rw [isNext]
      exact atEnd
  | case2 cursor notEnd ih =>
      rw [words_of_next notEnd, words_of_next, isNext, ih]
      rw [isNext]
      exact notEnd

/-- What is left after some tokens have been taken: a later part of the text, and the words
of the text without as many as were taken. -/
theorem Taken.left {source : String} {count : Nat} {cursor : Cursor}
    (isTaken : Taken (.ofText source) count cursor) :
    (∃ taken, source.toList = taken ++ cursor.rest ∧ cursor.offset = byteLength taken) ∧
      cursor.words = (ofText source).words.drop count ∧
      (cursor.exhausted = true → cursor.words = []) := by
  have step {count : Nat} {cursor : Cursor}
      (isPart : ∃ taken, source.toList = taken ++ cursor.rest ∧ cursor.offset = byteLength taken)
      (isLeft : cursor.words = (ofText source).words.drop count) :
      (∃ taken, source.toList = taken ++ cursor.next.2.rest ∧
        cursor.next.2.offset = byteLength taken) ∧
      cursor.next.2.words = (ofText source).words.drop (count + 1) := by
    obtain ⟨before, isSource, isOffset⟩ := isPart
    obtain ⟨taken, isRest, isNext⟩ := rest_eq_append_next cursor
    refine ⟨⟨before ++ taken, ?_, ?_⟩, ?_⟩
    · rw [isSource, isRest, List.append_assoc]
    · rw [isNext, isOffset, byteLength_append]
    · rw [words_next, isLeft, List.drop_drop]
  induction isTaken with
  | none => exact ⟨⟨[], rfl, rfl⟩, rfl, fun stopped => nomatch stopped⟩
  | @next count cursor _ ih =>
      obtain ⟨isPart, isLeft, stopped⟩ := ih
      obtain ⟨isPart', isLeft'⟩ := step isPart isLeft
      refine ⟨isPart', isLeft', fun isStopped => ?_⟩
      rw [exhausted_next] at isStopped
      rw [words_next, stopped isStopped, List.drop_nil]
  | @next? count cursor _ ih =>
      obtain ⟨isPart, isLeft, stopped⟩ := ih
      cases isStopped : cursor.exhausted with
      | true =>
          rw [Cursor.next?, if_pos isStopped]
          refine ⟨isPart, ?_, stopped⟩
          rw [← List.drop_drop, ← isLeft, stopped isStopped, List.drop_nil]
      | false =>
          obtain ⟨isPart', isLeft'⟩ := step isPart isLeft
          rw [Cursor.next?, if_neg (by rw [isStopped]; decide)]
          refine ⟨isPart', ?_, fun atEnd => ?_⟩
          · rw [words_of_exhausted, isLeft']
          · rw [words_of_exhausted, words_next, words_of_end (eq_of_beq atEnd), List.drop_nil]

/-- Further on in a text the same is read, and diagnostics name places further on. -/
theorem parse_of_rest {cursor : Cursor} {remaining : String}
    (isRest : cursor.rest = remaining.toList) :
    cursor.parse = (Monkey.parse remaining).map (Token.shift cursor.offset) := by
  have isShifted : (⟨cursor.rest, cursor.offset, false⟩ : Cursor) =
      (ofText remaining).shift cursor.offset := by
    rw [shift, ofText, isRest, Nat.zero_add]
  have isWords : cursor.words = (ofText remaining).words.map (Token.shift cursor.offset) := by
    rw [← words_shift, ← isShifted, words_of_exhausted cursor false]
  have isFinish : cursor.finish = (ofText remaining).finish + cursor.offset := by
    rw [finish, finish, ofText, isRest, Nat.zero_add, Nat.add_comm]
  have related : Tape.Image (Token.shift cursor.offset) (.ofCursor (ofText remaining))
      (.ofCursor cursor) := by
    refine ⟨rfl, isWords, ?_, rfl⟩
    rw [Tape.ofCursor, Tape.ofCursor, isFinish]
    rfl
  have kinds : ∀ token : Token, (token.shift cursor.offset).kind = token.kind := fun _ => rfl
  exact related.parse kinds

end Cursor

/-- Reading sees the kinds of tokens only. Two places whose tokens have the same kinds are read
to one program, whatever blanks and offsets there are, and the diagnostics correspond one by
one: the same cause, at tokens with the same number. And the reader goes by what is left: with
some tokens taken, the rest of the text is read as if it stood alone, with diagnostics moved on
by the bytes before it. -/
theorem parse_sees_kinds :
    (∀ first second : Cursor, first.words.map Token.kind = second.words.map Token.kind →
      first.parse.program = second.parse.program ∧
        List.Forall₂ (Diagnostic.Corresponds first.tokens second.tokens)
          first.parse.diagnostics second.parse.diagnostics) ∧
    ∀ (source : String) (count : Nat) (cursor : Cursor),
      Cursor.Taken (.ofText source) count cursor →
        ∃ taken remaining : String, source = taken ++ remaining ∧
          remaining.toList = cursor.rest ∧
          cursor.words = (Cursor.ofText source).words.drop count ∧
          cursor.parse = (parse remaining).map (Token.shift taken.utf8ByteSize) := by
  constructor
  · intro first second sameKinds
    rw [Cursor.parse_eq_numbered rfl, Cursor.parse_eq_numbered sameKinds.symm]
    refine ⟨rfl, ?_⟩
    rw [Parsed.map, Parsed.map, List.forall₂_map_left_iff, List.forall₂_map_right_iff,
      List.forall₂_same]
    intro diagnostic isGiven
    have isMember := Tape.token_mem_of_parse isGiven
    refine ⟨?_, diagnostic.token.start, ?_, ?_⟩
    · cases diagnostic <;> rfl
    · rw [Diagnostic.token_map]
      exact Cursor.tokens_of_numbered rfl isMember
    · rw [Diagnostic.token_map]
      exact Cursor.tokens_of_numbered sameKinds.symm isMember
  · intro source count cursor isTaken
    obtain ⟨⟨taken, isSource, isOffset⟩, isLeft, -⟩ := isTaken.left
    refine ⟨String.ofList taken, String.ofList cursor.rest, ?_, String.toList_ofList, isLeft, ?_⟩
    · rw [← String.ofList_append, ← isSource, String.ofList_toList]
    · rw [← byteLength_toList, String.toList_ofList, ← isOffset]
      exact Cursor.parse_of_rest String.toList_ofList.symm

/-- Blanks within a broken statement make no difference, and with two tokens of it taken the
others are read as a text of their own. -/
theorem parse_sees_kinds_broken :
    (Cursor.ofText "let x 5;y").words.map Token.kind =
        (Cursor.ofText " let x  5 ; y ").words.map Token.kind ∧
      List.Forall₂
        (Diagnostic.Corresponds (Cursor.ofText "let x 5;y").tokens
          (Cursor.ofText " let x  5 ; y ").tokens)
        (parse "let x 5;y").diagnostics (parse " let x  5 ; y ").diagnostics ∧
      Cursor.Taken (.ofText "let x 5;y") 2 (Cursor.ofText "let x 5;y").next.2.next?.2 ∧
      (Cursor.ofText "let x 5;y").next.2.next?.2.words =
        (Cursor.ofText "let x 5;y").words.drop 2 := by
  have sameKinds : (Cursor.ofText "let x 5;y").words.map Token.kind =
      (Cursor.ofText " let x  5 ; y ").words.map Token.kind := by cbv
  have isTaken : Cursor.Taken (.ofText "let x 5;y") 2
      (Cursor.ofText "let x 5;y").next.2.next?.2 := .next? (.next .none)
  obtain ⟨-, alike⟩ := parse_sees_kinds.1 _ _ sameKinds
  obtain ⟨_, _, -, -, isLeft, -⟩ := parse_sees_kinds.2 _ _ _ isTaken
  exact ⟨sameKinds, alike, isTaken, isLeft⟩

end Monkey
