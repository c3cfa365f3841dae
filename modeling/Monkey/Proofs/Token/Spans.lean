/-
# The spans of tokens

A reader that stops hands out the tokens of a text and one end mark. This module says
what these are by their spans alone: the spans follow one another, each token is the text
of its span, what lies outside of all spans is white space, and no token could have been
longer. There is exactly one way to cut a text like this.
-/

import Monkey.Proofs.Token.Spelling

namespace Monkey

open Text

/-- The token is what the text has in its span, where the text begins at the offset, and it
ends there. -/
def Token.Covers (offset : Nat) (text : List Char) (token : Token) : Prop :=
  ∃ before after, text = before ++ (token.literal.toList ++ after) ∧
    offset + byteLength before = token.start ∧
    token.start + byteLength token.literal.toList = token.stop ∧ token.kind.EndsBefore after

/-- The tokens cut the text up, which begins at the offset. -/
structure Tokenization (offset : Nat) (text : List Char) (tokens : List Token) : Prop where
  /-- The literal of a token is the text of its span, which ends where the token must. -/
  covers : ∀ token ∈ tokens, token.Covers offset text
  nonempty : ∀ token ∈ tokens, token.start < token.stop
  ascending : tokens.Pairwise fun earlier later => earlier.stop ≤ later.start
  /-- A character with any byte outside of the spans is white space. -/
  blank : ∀ before c after, text = before ++ c :: after →
    ∀ byte, offset + byteLength before ≤ byte → byte < offset + byteLength before + c.utf8Size →
      (∀ token ∈ tokens, ¬ (token.start ≤ byte ∧ byte < token.stop)) → isBlank c = true
  hasShape : ∀ token ∈ tokens, token.kind.HasShape
  /-- A word is a keyword if and only if it is in the table. -/
  byTable : ∀ token ∈ tokens, token.kind.ByTable

/-! ## Places in a text -/

theorem Text.byteLength_pos {text : List Char} (nonempty : text ≠ []) : 0 < byteLength text := by
  obtain ⟨c, others, rfl⟩ := List.exists_cons_of_ne_nil nonempty
  exact Nat.lt_of_lt_of_le c.utf8Size_pos (Nat.le_add_right _ _)

/-- Of two cuts through one text, the one at the smaller offset comes first. -/
theorem Text.exists_between {before before' after after' : List Char}
    (same : before ++ after = before' ++ after')
    (earlier : byteLength before ≤ byteLength before') :
    ∃ between, before' = before ++ between ∧ after = between ++ after' := by
  rcases List.append_eq_append_iff.mp same with ⟨between, isBefore, isAfter⟩ | ⟨between, rfl, rfl⟩
  · exact ⟨between, isBefore, isAfter⟩
  · rw [byteLength_append] at earlier
    have isNil : between = [] := by
      by_contra nonempty
      have positive := byteLength_pos nonempty
      omega
    subst isNil
    exact ⟨[], by simp, rfl⟩

/-- A character that begins before a cut lies before it as a whole. -/
theorem Text.exists_before {before front back after : List Char} {c : Char}
    (same : before ++ c :: after = front ++ back)
    (earlier : byteLength before < byteLength front) :
    ∃ between, front = before ++ c :: between := by
  obtain ⟨between, rfl, isRest⟩ := exists_between same (Nat.le_of_lt earlier)
  cases between with
  | nil => simp at earlier
  | cons d between =>
      cases isRest
      exact ⟨between, rfl⟩

/-! ## Spelled texts are cut up -/

/-- A token further on in a text stands in the whole of it as well. -/
theorem Token.Covers.behind {offset : Nat} {front text : List Char} {token : Token}
    (covers : token.Covers (offset + byteLength front) text) :
    token.Covers offset (front ++ text) := by
  obtain ⟨before, after, rfl, isStart, isStop, ends⟩ := covers
  refine ⟨front ++ before, after, (List.append_assoc ..).symm, ?_, isStop, ends⟩
  rw [byteLength_append, ← isStart, Nat.add_assoc]

theorem Tokenization.of_blank {offset : Nat} {text : List Char}
    (areBlank : ∀ c ∈ text, isBlank c = true) : Tokenization offset text [] where
  covers := by simp
  nonempty := by simp
  ascending := .nil
  blank before c after isText _ _ _ _ := areBlank c (by simp [isText])
  hasShape := by simp
  byTable := by simp

theorem Spelled.tokenization {offset : Nat} {text : List Char} {tokens : List Token}
    (spelled : Spelled offset text tokens) : Tokenization offset text tokens := by
  induction spelled with
  | blank areBlank => exact .of_blank areBlank
  | @token start blanks rest kind others areBlank hasShape byTable ends _ offset isStart ih =>
      subst isStart
      have isFront : blanks ++ (kind.literal.toList ++ rest) =
          (blanks ++ kind.literal.toList) ++ rest := (List.append_assoc ..).symm
      have isOffset : offset + byteLength blanks + byteLength kind.literal.toList =
          offset + byteLength (blanks ++ kind.literal.toList) := by
        rw [byteLength_append, Nat.add_assoc]
      constructor
      · rw [List.forall_mem_cons]
        refine ⟨⟨blanks, rest, rfl, rfl, rfl, ends⟩, fun token isToken => ?_⟩
        rw [isFront]
        exact (isOffset ▸ ih.covers token isToken).behind
      · rw [List.forall_mem_cons]
        refine ⟨?_, ih.nonempty⟩
        obtain ⟨first, more, isText, -⟩ := Kind.exists_head hasShape
        have positive : 0 < byteLength kind.literal.toList := byteLength_pos (by simp [isText])
        exact Nat.lt_add_of_pos_right positive
      · refine .cons (fun token isToken => ?_) ih.ascending
        obtain ⟨before, after, -, isStart, -⟩ := ih.covers token isToken
        rw [← isStart]
        exact Nat.le_add_right _ _
      · intro before c after isText byte low high outside
        obtain ⟨outsideFirst, outsideOthers⟩ := List.forall_mem_cons.mp outside
        by_cases inBlanks : byteLength before < byteLength blanks
        · obtain ⟨between, rfl⟩ := exists_before isText.symm inBlanks
          exact areBlank c (by simp)
        · rw [isFront] at isText
          by_cases inToken : byteLength before < byteLength (blanks ++ kind.literal.toList)
          · obtain ⟨between, isCut⟩ := exists_before isText.symm inToken
            have size := congrArg byteLength isCut
            simp only [byteLength_append, byteLength_cons] at size
            have inside : offset + byteLength blanks ≤ byte ∧
                byte < offset + byteLength blanks + byteLength kind.literal.toList := by omega
            exact absurd inside outsideFirst
          · obtain ⟨between, rfl, isRest⟩ := exists_between isText (Nat.not_lt.mp inToken)
            rw [byteLength_append, ← Nat.add_assoc, ← isOffset] at low high
            exact ih.blank between c after isRest byte low high outsideOthers
      · exact List.forall_mem_cons.mpr ⟨hasShape, ih.hasShape⟩
      · exact List.forall_mem_cons.mpr ⟨byTable, ih.byTable⟩

/-! ## What cuts a text up is spelled by it -/

namespace Tokenization

variable {offset : Nat} {text : List Char} {tokens : List Token}

/-- The text in front of the first token is white space. -/
theorem blank_before {first : Token} {others : List Token}
    (cuts : Tokenization offset text (first :: others)) {blanks rest : List Char}
    (isText : text = blanks ++ rest) (isStart : offset + byteLength blanks = first.start) :
    ∀ c ∈ blanks, isBlank c = true := by
  intro c isChar
  obtain ⟨before, after, rfl⟩ := List.append_of_mem isChar
  have size := c.utf8Size_pos
  simp only [byteLength_append, byteLength_cons] at isStart
  refine cuts.blank before c (after ++ rest) (by simp [isText]) (offset + byteLength before)
    (Nat.le_refl _) (by omega) ?_
  have behind : ∀ token ∈ first :: others, first.start ≤ token.start := by
    rw [List.forall_mem_cons]
    refine ⟨Nat.le_refl _, fun token isToken => ?_⟩
    have isNonempty := cuts.nonempty first List.mem_cons_self
    have isLater := List.rel_of_pairwise_cons cuts.ascending isToken
    omega
  intro token isToken inside
  have isBehind := behind token isToken
  omega

/-- Behind its first token a text is cut up by the others. -/
theorem tail {first : Token} {others : List Token}
    (cuts : Tokenization offset text (first :: others)) {front rest : List Char}
    (isText : text = front ++ rest) (isStop : offset + byteLength front = first.stop) :
    Tokenization first.stop rest others where
  covers token isToken := by
    obtain ⟨before, after, isCut, isStart, isEnd, ends⟩ :=
      cuts.covers token (List.mem_cons_of_mem first isToken)
    have isLater := List.rel_of_pairwise_cons cuts.ascending isToken
    obtain ⟨between, rfl, isRest⟩ := exists_between (isText.symm.trans isCut) (by omega)
    rw [byteLength_append] at isStart
    exact ⟨between, after, isRest, by omega, isEnd, ends⟩
  nonempty token isToken := cuts.nonempty token (List.mem_cons_of_mem first isToken)
  ascending := cuts.ascending.tail
  blank before c after isRest byte low high outside := by
    have isWhole : text = (front ++ before) ++ c :: after := by
      rw [isText, isRest, List.append_assoc]
    refine cuts.blank _ c after isWhole byte ?_ ?_ ?_
    · rw [byteLength_append]
      omega
    · rw [byteLength_append]
      omega
    · rw [List.forall_mem_cons]
      exact ⟨by omega, outside⟩
  hasShape token isToken := cuts.hasShape token (List.mem_cons_of_mem first isToken)
  byTable token isToken := cuts.byTable token (List.mem_cons_of_mem first isToken)

theorem spelled (cuts : Tokenization offset text tokens) : Spelled offset text tokens := by
  induction tokens generalizing offset text with
  | nil =>
      refine .blank fun c isChar => ?_
      obtain ⟨before, after, rfl⟩ := List.append_of_mem isChar
      have size := c.utf8Size_pos
      exact cuts.blank before c after rfl _ (Nat.le_refl _) (by omega) (by simp)
  | cons first others ih =>
      obtain ⟨blanks, rest, isText, isStart, isStop, ends⟩ := cuts.covers first List.mem_cons_self
      have areBlank := cuts.blank_before isText isStart
      have isFront : text = (blanks ++ first.literal.toList) ++ rest := by
        rw [isText, List.append_assoc]
      have others := ih (cuts.tail isFront (by rw [byteLength_append]; omega))
      obtain ⟨kind, start, stop⟩ := first
      obtain rfl : start + byteLength kind.literal.toList = stop := isStop
      subst isText
      exact .token areBlank (cuts.hasShape _ List.mem_cons_self)
        (cuts.byTable _ List.mem_cons_self) ends others isStart

end Tokenization

namespace Cursor

/-! ## The end mark and the words before it -/

/-- The end mark is not among the words of a text. -/
theorem kind_ne_eof {cursor : Cursor} {token : Token} (isMember : token ∈ cursor.words) :
    token.kind ≠ .eof := by
  intro isEnd
  have shape := cursor.spelled_words.tokenization.hasShape token isMember
  rw [isEnd] at shape
  exact shape

/-- No token stands in a text twice. -/
theorem nodup_tokens (cursor : Cursor) : cursor.tokens.Nodup := by
  have cuts := cursor.spelled_words.tokenization
  rw [tokens]
  refine List.nodup_append.mpr ⟨?_, by simp, ?_⟩
  · refine cuts.ascending.imp_of_mem fun isFirst _ apart => ?_
    rintro rfl
    exact absurd apart (Nat.not_le.mpr (cuts.nonempty _ isFirst))
  · rintro token isWord _ isEnd rfl
    rw [List.mem_singleton.mp isEnd] at isWord
    exact kind_ne_eof isWord rfl

/-- Nothing stands behind an end mark. -/
theorem eq_nil_of_eof {cursor : Cursor} {front back : List Token} {token : Token}
    (isSplit : cursor.tokens = front ++ token :: back) (isEnd : token.kind = .eof) : back = [] := by
  rcases List.eq_nil_or_concat back with isNil | ⟨others, last, rfl⟩
  · exact isNil
  · rw [tokens, List.concat_eq_append, ← List.cons_append, ← List.append_assoc] at isSplit
    have isWords := (List.append_inj' isSplit rfl).1
    have isWord : token ∈ cursor.words := by simp [isWords]
    exact absurd isEnd (kind_ne_eof isWord)

/-! ## The reader that stops -/

/-- The end mark is answered once, and then nothing more. -/
theorem next?_of_exhausted {cursor : Cursor} (exhausted : cursor.exhausted = true) :
    cursor.next? = (none, cursor) := by
  rw [next?, if_pos exhausted]

theorem next?_of_not_exhausted {cursor : Cursor} (goesOn : cursor.exhausted = false) :
    cursor.next? =
      (some cursor.next.1, { cursor.next.2 with exhausted := cursor.next.1.kind == .eof }) := by
  rw [next?, goesOn, if_neg Bool.false_ne_true]

/-- How often the reader that stops can still answer, at most. -/
def answersLeft (cursor : Cursor) : Nat :=
  if cursor.exhausted then 0 else cursor.rest.length + 1

theorem answersLeft_next? {cursor : Cursor} {token : Token} {after : Cursor}
    (isNext : cursor.next? = (some token, after)) : after.answersLeft < cursor.answersLeft := by
  cases goesOn : cursor.exhausted with
  | true =>
      rw [next?_of_exhausted goesOn] at isNext
      cases isNext
  | false =>
      rw [next?_of_not_exhausted goesOn] at isNext
      cases isNext
      by_cases atEnd : cursor.next.1.kind = .eof
      · simp [answersLeft, atEnd, goesOn]
      · have shorter := length_next_lt atEnd
        simp [answersLeft, atEnd, goesOn, shorter]

/-- Everything that the reader that stops hands out, when it is asked until it answers
nothing any more. -/
def handedOut (cursor : Cursor) : List Token :=
  match _ : cursor.next? with
  | (none, _) => []
  | (some token, after) => token :: after.handedOut
termination_by cursor.answersLeft
decreasing_by exact answersLeft_next? (by assumption)

theorem handedOut_of_some {cursor after : Cursor} {token : Token}
    (isNext : cursor.next? = (some token, after)) :
    cursor.handedOut = token :: after.handedOut := by
  rw [handedOut]
  split
  · next isNone => simp [isNone] at isNext
  · next isSome =>
      rw [isSome] at isNext
      cases isNext
      rfl

theorem handedOut_of_exhausted {cursor : Cursor} (exhausted : cursor.exhausted = true) :
    cursor.handedOut = [] := by
  rw [handedOut]
  split
  · rfl
  · next isSome =>
      rw [next?_of_exhausted exhausted] at isSome
      cases isSome

/-- The words that are left do not depend on what has been handed out before. -/
theorem handedOut_eq {cursor : Cursor} (goesOn : cursor.exhausted = false) :
    cursor.handedOut = cursor.words ++ [cursor.endMark] := by
  induction cursor using words.induct with
  | case1 cursor atEnd =>
      rw [handedOut_of_some (next?_of_not_exhausted goesOn), handedOut_of_exhausted (by simp [atEnd]),
        words_of_end atEnd, next_eq_endMark atEnd, List.nil_append]
  | case2 cursor notEnd ih =>
      have isAfter : { cursor.next.2 with exhausted := cursor.next.1.kind == .eof } =
          cursor.next.2 := by
        rw [beq_false_of_ne notEnd, ← goesOn, ← exhausted_next]
      rw [handedOut_of_some (next?_of_not_exhausted goesOn), isAfter,
        ih ((exhausted_next cursor).trans goesOn), words_of_next notEnd, endMark, finish_next]
      rfl

/-- Reading a text to its end hands out the tokens that cut it up, and then the end mark.
Nothing else cuts it up. -/
theorem handedOut_eq_iff_tokenization (text : String) (tokens : List Token) :
    (ofText text).handedOut = tokens ↔
      ∃ words, tokens = words ++ [⟨.eof, text.utf8ByteSize, text.utf8ByteSize⟩] ∧
        Tokenization 0 text.toList words := by
  have isEnd : (ofText text).endMark = ⟨.eof, text.utf8ByteSize, text.utf8ByteSize⟩ := by
    rw [endMark, finish_ofText]
  rw [handedOut_eq rfl, isEnd]
  constructor
  · rintro rfl
    exact ⟨_, rfl, (ofText text).spelled_words.tokenization⟩
  · rintro ⟨words, rfl, cuts⟩
    rw [ofText, cuts.spelled.words_eq]

end Cursor

end Monkey
