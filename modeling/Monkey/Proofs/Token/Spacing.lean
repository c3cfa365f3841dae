/-
# Tokens with white space between them

Reading cuts a text into tokens, and writing puts tokens together to a text. If there is
some white space between every two of them, the first undoes the second: white space cuts
off any token, so it makes no difference which two stand next to each other, and all that
is asked of a token is that it can be read at all.
-/

import Monkey.Proofs.Token.Spans

namespace Monkey

open Text

/-- A token that can be read: it has the shape of its kind, and an identifier is no keyword. -/
def Kind.IsReadable (kind : Kind) : Prop :=
  kind.HasShape ∧ ∀ name, kind = .ident name → ∀ word : Keyword, name ≠ word.text

theorem Kind.IsReadable.byTable {kind : Kind} (readable : kind.IsReadable) : kind.ByTable := by
  obtain ⟨hasShape, notKeyword⟩ := readable
  cases kind with
  | ident name =>
      have unlisted : Keyword.ofText? name = none := by
        cases isListed : Keyword.ofText? name with
        | none => rfl
        | some word => exact absurd (Keyword.text_of_ofText? isListed).symm (notKeyword name rfl word)
      exact fun _ => iff_of_false (by simp) (by simp [literal, unlisted])
  | keyword word => exact fun _ => iff_of_true ⟨word, rfl⟩ (by simp [literal])
  | symbol spelled => exact byTable_of_not_isWord spelled.not_isWord_text
  | int digits => exact byTable_of_not_isWord (not_isWord_of_digits hasShape.2)
  | illegal c =>
      refine byTable_of_not_isWord fun isWord => ?_
      obtain ⟨-, noLetter, -⟩ := hasShape_illegal_iff.mp hasShape
      have letter : isLetter c = true := isWord.isLetter_head (by simp [literal])
      exact Bool.false_ne_true (noLetter.symm.trans letter)
  | eof => exact hasShape.elim

/-- A token that is written, and the white space in front of it. -/
structure Spaced where
  blanks : List Char
  kind : Kind

namespace Spaced

/-- The tokens written one after the other, each behind its white space. -/
def text (items : List Spaced) : List Char :=
  items.flatMap fun item => item.blanks ++ item.kind.literal.toList

/-- The tokens with their places in the text, which begins at the offset. -/
def tokens : Nat → List Spaced → List Token
  | _, [] => []
  | offset, ⟨blanks, kind⟩ :: items =>
    let start := offset + byteLength blanks
    ⟨kind, start, start + byteLength kind.literal.toList⟩ ::
      tokens (start + byteLength kind.literal.toList) items

variable {items : List Spaced}

/-- Behind a token comes white space, or nothing. -/
theorem blank_head {trail : List Char}
    (areBlank : ∀ item ∈ items, ∀ c ∈ item.blanks, isBlank c = true)
    (apart : ∀ item ∈ items, item.blanks ≠ []) (trailBlank : ∀ c ∈ trail, isBlank c = true) :
    ∀ c ∈ (text items ++ trail).head?, isBlank c = true := by
  cases items with
  | nil => exact fun c isHead => trailBlank c (List.mem_of_mem_head? isHead)
  | cons item items =>
      obtain ⟨first, others, isBlanks⟩ := List.exists_cons_of_ne_nil (apart item List.mem_cons_self)
      have blank := areBlank item List.mem_cons_self first (by simp [isBlanks])
      simpa [text, isBlanks] using blank

/-- What is written is spelled by the tokens that were written. -/
theorem spelled {trail : List Char} (readable : ∀ item ∈ items, item.kind.IsReadable)
    (areBlank : ∀ item ∈ items, ∀ c ∈ item.blanks, isBlank c = true)
    (apart : ∀ item ∈ items.tail, item.blanks ≠ [])
    (trailBlank : ∀ c ∈ trail, isBlank c = true) (offset : Nat) :
    Spelled offset (text items ++ trail) (tokens offset items) := by
  induction items generalizing offset with
  | nil => exact .blank trailBlank
  | cons item items ih =>
      obtain ⟨isReadable, othersReadable⟩ := List.forall_mem_cons.mp readable
      obtain ⟨blank, othersBlank⟩ := List.forall_mem_cons.mp areBlank
      have ends := item.kind.endsBefore_of_blank (blank_head othersBlank apart trailBlank)
      have others := ih othersReadable othersBlank
        (fun next isNext => apart next (List.mem_of_mem_tail isNext))
      have isText : text (item :: items) ++ trail =
          item.blanks ++ (item.kind.literal.toList ++ (text items ++ trail)) := by simp [text]
      rw [isText, tokens]
      exact .token blank isReadable.1 isReadable.byTable ends (others _) rfl

theorem map_kind_tokens (offset : Nat) (items : List Spaced) :
    (tokens offset items).map Token.kind = items.map Spaced.kind := by
  induction items generalizing offset with
  | nil => rfl
  | cons item items ih => rw [tokens, List.map_cons, ih, List.map_cons]

/-- The place of a token is where its literal is in the text. -/
theorem tokens_append_getElem? (offset : Nat) (before : List Spaced) (item : Spaced)
    (after : List Spaced) :
    (tokens offset (before ++ item :: after))[before.length]? =
      some ⟨item.kind, offset + byteLength (text before ++ item.blanks),
        offset + byteLength (text before ++ item.blanks) + byteLength item.kind.literal.toList⟩ := by
  induction before generalizing offset with
  | nil => simp [tokens, text]
  | cons first before ih =>
      rw [List.cons_append, tokens, List.length_cons, List.getElem?_cons_succ, ih]
      simp [text, Nat.add_assoc]

end Spaced

/-- Tokens that are written with white space between every two of them, and perhaps around them,
are read as what was written, each where its literal is in the text. -/
theorem Cursor.handedOut_of_spaced {items : List Spaced} {trail : List Char}
    (readable : ∀ item ∈ items, item.kind.IsReadable)
    (areBlank : ∀ item ∈ items, ∀ c ∈ item.blanks, isBlank c = true)
    (apart : ∀ item ∈ items.tail, item.blanks ≠ [])
    (trailBlank : ∀ c ∈ trail, isBlank c = true) :
    ∃ words, (ofText (String.ofList (Spaced.text items ++ trail))).handedOut =
        words ++ [⟨.eof, byteLength (Spaced.text items ++ trail),
          byteLength (Spaced.text items ++ trail)⟩] ∧
      words.map Token.kind = items.map Spaced.kind ∧
      ∀ before item after, items = before ++ item :: after →
        words[before.length]? =
          some ⟨item.kind, byteLength (Spaced.text before ++ item.blanks),
            byteLength (Spaced.text before ++ item.blanks) +
              byteLength item.kind.literal.toList⟩ := by
  refine ⟨Spaced.tokens 0 items, ?_, Spaced.map_kind_tokens 0 items, ?_⟩
  · have isRead := (Spaced.spelled readable areBlank apart trailBlank 0).words_eq false
    rw [handedOut_eq rfl, endMark, finish, ofText, String.toList_ofList, isRead, Nat.zero_add]
  · rintro before item after rfl
    rw [Spaced.tokens_append_getElem?, Nat.zero_add]

/-- White space of two and of three bytes, and an equals sign that stays apart from the next. -/
theorem Cursor.handedOut_of_spaced_operators :
    ∃ words, (ofText "let\u00a0=\u3000==\n é\t").handedOut = words ++ [⟨.eof, 16, 16⟩] ∧
      words[3]? = some ⟨.illegal 'é', 13, 15⟩ := by
  let items : List Spaced := [⟨[], .keyword .letWord⟩, ⟨['\u00a0'], .symbol .assign⟩,
    ⟨['\u3000'], .symbol .equal⟩, ⟨['\n', ' '], .illegal 'é'⟩]
  have readable : ∀ item ∈ items, item.kind.IsReadable := by
    have isIllegal : (Kind.illegal 'é').HasShape := Kind.hasShape_illegal_iff.mpr (by decide)
    simp only [items, List.forall_mem_cons]
    exact ⟨⟨trivial, by simp⟩, ⟨trivial, by simp⟩, ⟨trivial, by simp⟩, ⟨isIllegal, by simp⟩, by simp⟩
  have areBlank : ∀ item ∈ items, ∀ c ∈ item.blanks, isBlank c = true := by
    simp [items, isBlank, blankRanges]
  have trailBlank : ∀ c ∈ ['\t'], isBlank c = true := List.all_eq_true.mp rfl
  obtain ⟨words, isRead, -, places⟩ :=
    handedOut_of_spaced readable areBlank (by decide) trailBlank
  exact ⟨words, isRead, places (items.take 3) _ [] rfl⟩

end Monkey
