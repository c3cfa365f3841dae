/-
# Two readers of one text

The reader that always answers and the reader that stops move one place between them, and
only the second keeps a note: that it has answered the end mark itself. So the first one
can come upon the end without the second knowing of it.

Whoever is asked, the answers are taken from the front of one endless sequence, which is
the tokens of the text and then its end mark for ever. The note decides nothing but
whether the second reader answers at all. It is set by nobody else, and what the first
reader answers does not depend on it.
-/

import Mathlib.Data.Stream.Init
import Monkey.Proofs.Token.Spans

namespace Monkey

/-- The reader that answers the end mark again and again, and the one that answers it once. -/
inductive Reader
  | endless
  | stopping
  deriving DecidableEq, Repr

/-- Who was asked, and what was answered. -/
structure Exchange where
  reader : Reader
  answer : Option Token
  deriving DecidableEq, Repr

namespace Exchange

/-- The reader that stops was among those asked, and answered the end mark. -/
def HaveStopped (exchanges : List Exchange) : Prop :=
  ∃ token : Token, ⟨.stopping, some token⟩ ∈ exchanges ∧ token.kind = .eof

theorem not_haveStopped_nil : ¬ HaveStopped [] := by
  rintro ⟨token, isMember, -⟩
  cases isMember

theorem haveStopped_cons {reader : Reader} {answer : Option Token} {exchanges : List Exchange} :
    HaveStopped (⟨reader, answer⟩ :: exchanges) ↔
      (reader = .stopping ∧ ∃ token ∈ answer, token.kind = .eof) ∨ HaveStopped exchanges := by
  constructor
  · rintro ⟨token, isMember, isEnd⟩
    rcases List.mem_cons.mp isMember with isFirst | isOther
    · cases isFirst
      exact Or.inl ⟨rfl, token, rfl, isEnd⟩
    · exact Or.inr ⟨token, isOther, isEnd⟩
  · rintro (⟨rfl, token, rfl, isEnd⟩ | ⟨token, isMember, isEnd⟩)
    · exact ⟨token, List.mem_cons_self, isEnd⟩
    · exact ⟨token, List.mem_cons_of_mem _ isMember, isEnd⟩

end Exchange

namespace Cursor

/-- What a reader answers, and the place that it leaves to whoever is asked next. -/
def ask (cursor : Cursor) : Reader → Option Token × Cursor
  | .endless => (some cursor.next.1, cursor.next.2)
  | .stopping => cursor.next?

/-- What is answered if the readers are asked in this order. -/
def exchanges (cursor : Cursor) : List Reader → List Exchange
  | [] => []
  | reader :: readers =>
    ⟨reader, (cursor.ask reader).1⟩ :: (cursor.ask reader).2.exchanges readers

/-- The place at which the readers are then. -/
def afterAsking (cursor : Cursor) : List Reader → Cursor
  | [] => cursor
  | reader :: readers => (cursor.ask reader).2.afterAsking readers

/-- The same place, with the note that the end mark has been answered or without it. -/
def noting (cursor : Cursor) (noted : Bool) : Cursor := { cursor with exhausted := noted }

/-- The tokens that are left, and then the end mark for ever. -/
def stream (cursor : Cursor) : Stream' Token := cursor.tokens ++ₛ Stream'.const cursor.endMark

/-! ## The endless sequence -/

theorem endMark_next (cursor : Cursor) : cursor.next.2.endMark = cursor.endMark := by
  rw [endMark, finish_next, endMark]

theorem stream_of_end {cursor : Cursor} (atEnd : cursor.next.1.kind = .eof) :
    cursor.stream = Stream'.const cursor.endMark := by
  rw [stream, tokens, words_of_end atEnd]
  exact (Stream'.const_eq cursor.endMark).symm

/-- Behind the end mark there is nothing but the end mark. -/
theorem next_next_of_end {cursor : Cursor} (atEnd : cursor.next.1.kind = .eof) :
    cursor.next.2.next.1.kind = .eof := by
  apply next_of_blank
  unfold next at atEnd ⊢
  split at atEnd
  · simp
  · exact absurd atEnd (Kind.scan_ne_eof _ _)

/-- The next token is the first of the sequence, and what it leaves is the rest. -/
theorem stream_eq_cons (cursor : Cursor) :
    cursor.stream = .cons cursor.next.1 cursor.next.2.stream := by
  by_cases atEnd : cursor.next.1.kind = .eof
  · rw [stream_of_end atEnd, stream_of_end (next_next_of_end atEnd), endMark_next,
      next_eq_endMark atEnd]
    exact Stream'.const_eq cursor.endMark
  · rw [stream, tokens, words_of_next atEnd]
    show _ = Stream'.cons cursor.next.1 (cursor.next.2.tokens ++ₛ Stream'.const _)
    rw [tokens, endMark_next]
    rfl

/-- The note makes no difference to what is ahead. -/
theorem stream_noting (cursor : Cursor) (noted : Bool) :
    (cursor.noting noted).stream = cursor.stream := by
  have sameWords : (cursor.noting noted).words = cursor.words :=
    cursor.spelled_words.words_eq noted
  rw [stream, tokens, sameWords]
  rfl

/-! ## One request -/

/-- The reader that stops has done so and answers nothing, or else the next token is answered.
In that case the note is there afterwards if it was there, or if this was the end mark and the
answer of the reader that stops. -/
theorem ask_cases (cursor : Cursor) (reader : Reader) :
    (reader = .stopping ∧ cursor.exhausted = true ∧ cursor.ask reader = (none, cursor)) ∨
    ((reader = .stopping → cursor.exhausted = false) ∧
      ∃ noted, cursor.ask reader = (some cursor.next.1, cursor.next.2.noting noted) ∧
        (noted = true ↔
          cursor.exhausted = true ∨ reader = .stopping ∧ cursor.next.1.kind = .eof)) := by
  cases reader with
  | endless =>
      refine Or.inr ⟨by simp, cursor.exhausted, ?_, by simp⟩
      rw [ask, ← exhausted_next]
      rfl
  | stopping =>
      cases stopped : cursor.exhausted with
      | true => exact Or.inl ⟨rfl, rfl, next?_of_exhausted stopped⟩
      | false => exact Or.inr ⟨fun _ => rfl, _, next?_of_not_exhausted stopped, by simp⟩

/-- The note is only there where nothing but the end mark is left. -/
def Settled (cursor : Cursor) : Prop :=
  cursor.exhausted = true → cursor.stream = Stream'.const cursor.endMark

theorem endMark_ask (cursor : Cursor) (reader : Reader) :
    (cursor.ask reader).2.endMark = cursor.endMark := by
  rcases cursor.ask_cases reader with ⟨-, -, isAsked⟩ | ⟨-, noted, isAsked, -⟩
  · rw [isAsked]
  · rw [isAsked]
    exact endMark_next cursor

theorem Settled.ask {cursor : Cursor} (settled : cursor.Settled) (reader : Reader) :
    (cursor.ask reader).2.Settled := by
  rcases cursor.ask_cases reader with ⟨-, -, isAsked⟩ | ⟨-, noted, isAsked, isNoted⟩
  · rw [isAsked]
    exact settled
  · rw [Settled, endMark_ask, isAsked, stream_noting]
    intro isSet
    have isEndless : cursor.stream = Stream'.const cursor.endMark := by
      rcases isNoted.mp isSet with before | ⟨-, atEnd⟩
      · exact settled before
      · exact stream_of_end atEnd
    rw [stream_eq_cons] at isEndless
    have isTail := congrArg Stream'.tail isEndless
    rwa [Stream'.tail_cons, Stream'.tail_const] at isTail

theorem ask_eq_none_iff (cursor : Cursor) (reader : Reader) :
    (cursor.ask reader).1 = none ↔ reader = .stopping ∧ cursor.exhausted = true := by
  rcases cursor.ask_cases reader with ⟨isStopping, stopped, isAsked⟩ | ⟨goesOn, noted, isAsked, -⟩
  · rw [isAsked]
    exact iff_of_true rfl ⟨isStopping, stopped⟩
  · simpa [isAsked] using goesOn

theorem Settled.ask_endless {cursor : Cursor} (settled : cursor.Settled)
    (isSet : cursor.exhausted = true) : (cursor.ask .endless).1 = some cursor.endMark := by
  have isHead := congrArg Stream'.head (settled isSet)
  rw [stream_eq_cons] at isHead
  exact congrArg some isHead

/-! ## Any number of requests -/

theorem Settled.afterAsking {cursor : Cursor} (settled : cursor.Settled) (readers : List Reader) :
    (cursor.afterAsking readers).Settled := by
  induction readers generalizing cursor with
  | nil => exact settled
  | cons reader readers ih => exact ih (settled.ask reader)

theorem endMark_afterAsking (cursor : Cursor) (readers : List Reader) :
    (cursor.afterAsking readers).endMark = cursor.endMark := by
  induction readers generalizing cursor with
  | nil => rfl
  | cons reader readers ih => rw [Cursor.afterAsking, ih, endMark_ask]

theorem map_reader_exchanges (cursor : Cursor) (readers : List Reader) :
    (cursor.exchanges readers).map Exchange.reader = readers := by
  induction readers generalizing cursor with
  | nil => rfl
  | cons reader readers ih => rw [exchanges, List.map_cons, ih]

/-- Whoever is asked, the answers come from the front of the sequence. -/
theorem exists_take_eq_answers (cursor : Cursor) (readers : List Reader) :
    ∃ count, (cursor.exchanges readers).filterMap Exchange.answer = cursor.stream.take count := by
  induction readers generalizing cursor with
  | nil => exact ⟨0, rfl⟩
  | cons reader readers ih =>
      rw [exchanges]
      rcases cursor.ask_cases reader with ⟨-, -, isAsked⟩ | ⟨-, noted, isAsked, -⟩
      · rw [isAsked]
        exact ih cursor
      · obtain ⟨count, isTaken⟩ := ih (cursor.ask reader).2
        rw [isAsked, stream_noting] at isTaken
        use count + 1
        rw [isAsked, stream_eq_cons, Stream'.take_succ_cons, ← isTaken]
        rfl

/-- The note is there exactly if it was there before or the reader that stops has answered the
end mark since. -/
theorem exhausted_afterAsking_iff (cursor : Cursor) (readers : List Reader) :
    (cursor.afterAsking readers).exhausted = true ↔
      cursor.exhausted = true ∨ Exchange.HaveStopped (cursor.exchanges readers) := by
  induction readers generalizing cursor with
  | nil => simp [Cursor.afterAsking, exchanges, Exchange.not_haveStopped_nil]
  | cons reader readers ih =>
      rw [Cursor.afterAsking, ih, exchanges, Exchange.haveStopped_cons]
      rcases cursor.ask_cases reader with ⟨-, stopped, isAsked⟩ | ⟨-, noted, isAsked, isNoted⟩
      · simp [isAsked, stopped]
      · have isSet : (cursor.next.2.noting noted).exhausted = noted := rfl
        simp [isAsked, isSet, isNoted, or_assoc]

/-- Each exchange is one request at the place where those before it have left the readers. -/
theorem exists_ask_of_split {cursor : Cursor} {readers : List Reader} {earlier later : List Exchange}
    {exchange : Exchange} (isSplit : cursor.exchanges readers = earlier ++ exchange :: later) :
    ∃ asked, cursor.exchanges asked = earlier ∧
      ((cursor.afterAsking asked).ask exchange.reader).1 = exchange.answer := by
  induction readers generalizing cursor earlier with
  | nil => simp [exchanges] at isSplit
  | cons reader readers ih =>
      rw [exchanges] at isSplit
      cases earlier with
      | nil =>
          cases isSplit
          exact ⟨[], rfl, rfl⟩
      | cons first earlier =>
          obtain ⟨isFirst, isSplit⟩ := List.cons.inj isSplit
          obtain ⟨asked, areEarlier, isAnswer⟩ := ih isSplit
          refine ⟨reader :: asked, ?_, isAnswer⟩
          rw [exchanges, areEarlier, isFirst]

/-- However the two readers of a text are asked in turn, what they answer is the beginning of what
the second one alone would hand out, with the end mark for ever behind it. The second one answers
nothing if and only if it has answered the end mark before, and the first one goes on answering
the end mark then. -/
theorem exchanges_ofText (text : String) (readers : List Reader) :
    ((ofText text).exchanges readers).map Exchange.reader = readers ∧
    (∃ count, ((ofText text).exchanges readers).filterMap Exchange.answer =
      ((ofText text).handedOut ++ₛ Stream'.const (ofText text).endMark).take count) ∧
    ∀ earlier exchange later,
      (ofText text).exchanges readers = earlier ++ exchange :: later →
      (exchange.answer = none ↔
        exchange.reader = .stopping ∧ Exchange.HaveStopped earlier) ∧
      (Exchange.HaveStopped earlier → exchange.reader = .endless →
        exchange.answer = some (ofText text).endMark) := by
  have fresh : (ofText text).exhausted = false := rfl
  rw [handedOut_eq fresh]
  refine ⟨map_reader_exchanges _ readers, exists_take_eq_answers _ readers, ?_⟩
  intro earlier exchange later isSplit
  obtain ⟨asked, rfl, isAnswer⟩ := exists_ask_of_split isSplit
  have isNoted : ((ofText text).afterAsking asked).exhausted = true ↔
      Exchange.HaveStopped ((ofText text).exchanges asked) := by
    simp [exhausted_afterAsking_iff, fresh]
  have settled : ((ofText text).afterAsking asked).Settled :=
    Settled.afterAsking (fun isSet => absurd isSet (by simp [fresh])) asked
  rw [← isAnswer, ← isNoted]
  refine ⟨ask_eq_none_iff _ _, fun isSet isEndless => ?_⟩
  rw [isEndless, settled.ask_endless isSet, endMark_afterAsking]

/-- The first reader comes upon the end behind `é` without the second knowing of it, which still
answers the end mark once. -/
theorem exchanges_ofText_single :
    ∃ earlier, (ofText "é").exchanges [.endless, .endless, .stopping, .stopping, .endless] =
      earlier ++ ⟨.stopping, none⟩ :: [⟨.endless, some ⟨.eof, 2, 2⟩⟩] ∧
      Exchange.HaveStopped earlier := by
  have isSplit : (ofText "é").exchanges [.endless, .endless, .stopping, .stopping, .endless] =
      [⟨.endless, some ⟨.illegal 'é', 0, 2⟩⟩, ⟨.endless, some ⟨.eof, 2, 2⟩⟩,
        ⟨.stopping, some ⟨.eof, 2, 2⟩⟩] ++ ⟨.stopping, none⟩ :: [⟨.endless, some ⟨.eof, 2, 2⟩⟩] := by
    decide +kernel
  obtain ⟨-, -, atSplit⟩ := exchanges_ofText "é" _
  exact ⟨_, isSplit, ((atSplit _ _ _ isSplit).1.mp rfl).2⟩

end Cursor

end Monkey
