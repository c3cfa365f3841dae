/-
# The spelling of tokens

Which texts are which tokens, said without reading. A text is a run of blanks, a token,
and more of the same, where the token has the shape of its kind and what comes behind it
does not belong to it any more. That already decides everything: a text is spelled in one
way only, and it is the way in which it is read.

White space separates tokens and is none, so an illegal character is no white space.
-/

import Mathlib.Data.List.TakeWhile
import Monkey.Proofs.Token.Append

namespace Monkey

open Text

/-- A letter, then letters and digits. -/
def IsWord (text : List Char) : Prop :=
  ∃ first others, text = first :: others ∧ isLetter first = true ∧
    ∀ c ∈ others, isWordChar c = true

namespace Kind

/-- The shapes of what belongs to the language. Symbols and keywords have their spellings. -/
def IsLexeme : Kind → Prop
  | .ident name => IsWord name.toList
  | .int digits => digits.toList ≠ [] ∧ ∀ c ∈ digits.toList, c.isDigit = true
  | .symbol _ => True
  | .keyword _ => True
  | .illegal _ => False
  | .eof => False

/-- The shapes of tokens. An illegal one is a character with which nothing else begins. -/
def HasShape : Kind → Prop
  | .illegal c => isBlank c = false ∧ ∀ other : Kind, other.IsLexeme →
    other.literal.toList.head? ≠ some c
  | kind => kind.IsLexeme

/-- A word is a keyword if and only if it is in the table. -/
def ByTable (kind : Kind) : Prop :=
  IsWord kind.literal.toList →
    ((∃ word, kind = .keyword word) ↔ (Keyword.ofText? kind.literal).isSome = true)

/-- What comes behind a token does not belong to it. -/
def EndsBefore (after : List Char) : Kind → Prop
  | .ident _ => ∀ c ∈ after.head?, isWordChar c = false
  | .keyword _ => ∀ c ∈ after.head?, isWordChar c = false
  | .int _ => ∀ c ∈ after.head?, c.isDigit = false
  | .symbol .assign => ∀ c ∈ after.head?, c ≠ '='
  | .symbol .bang => ∀ c ∈ after.head?, c ≠ '='
  | _ => True

end Kind

/-- From the offset on, the text is these tokens and nothing else but blanks. -/
inductive Spelled : Nat → List Char → List Token → Prop
  | blank {offset : Nat} {blanks : List Char} (areBlank : ∀ c ∈ blanks, isBlank c = true) :
    Spelled offset blanks []
  | token {start : Nat} {blanks rest : List Char} {kind : Kind} {others : List Token}
    (areBlank : ∀ c ∈ blanks, isBlank c = true) (hasShape : kind.HasShape)
    (byTable : kind.ByTable) (ends : kind.EndsBefore rest)
    (spelled : Spelled (start + byteLength kind.literal.toList) rest others) {offset : Nat}
    (isStart : offset + byteLength blanks = start) :
    Spelled offset (blanks ++ (kind.literal.toList ++ rest))
      (⟨kind, start, start + byteLength kind.literal.toList⟩ :: others)

/-! ## Characters -/

/-- Visible ASCII characters are no white space. -/
theorem Text.isBlank_of_visible {c : Char} (low : 33 ≤ c.toNat) (high : c.toNat ≤ 126) :
    isBlank c = false := by
  simp only [isBlank, blankRanges, List.any_cons, List.any_nil, Bool.or_eq_false_iff,
    Bool.and_eq_false_iff, decide_eq_false_iff_not, and_true]
  omega

/-- Where the letters are. -/
theorem range_of_isLetter {c : Char} (letter : isLetter c = true) :
    (65 ≤ c.toNat ∧ c.toNat ≤ 90) ∨ (97 ≤ c.toNat ∧ c.toNat ≤ 122) ∨ c = '_' := by
  change (decide (c.val ≥ 'A'.val ∧ c.val ≤ 'Z'.val) ||
    (decide (c.val ≥ 'a'.val) && decide (c.val ≤ 'z'.val)) || c == '_') = true at letter
  simp only [Bool.or_eq_true, Bool.and_eq_true, decide_eq_true_eq, beq_iff_eq, ge_iff_le,
    UInt32.le_iff_toNat_le] at letter
  exact or_assoc.mp letter

theorem isBlank_of_isLetter {c : Char} (letter : isLetter c = true) : isBlank c = false := by
  rcases range_of_isLetter letter with ⟨low, high⟩ | ⟨low, high⟩ | rfl
  · exact isBlank_of_visible (by omega) (by omega)
  · exact isBlank_of_visible (by omega) (by omega)
  · decide

theorem range_of_isDigit {c : Char} (digit : c.isDigit = true) :
    48 ≤ c.toNat ∧ c.toNat ≤ 57 := by
  simp only [Char.isDigit, Bool.and_eq_true, decide_eq_true_eq, ge_iff_le,
    UInt32.le_iff_toNat_le] at digit
  exact digit

theorem isBlank_of_isDigit {c : Char} (digit : c.isDigit = true) : isBlank c = false :=
  have ⟨low, high⟩ := range_of_isDigit digit
  isBlank_of_visible (by omega) (by omega)

/-- No letter is a digit. -/
theorem isDigit_of_isLetter {c : Char} (letter : isLetter c = true) : c.isDigit = false := by
  rw [Bool.eq_false_iff]
  intro digit
  have high := (range_of_isDigit digit).2
  rcases range_of_isLetter letter with ⟨low, -⟩ | ⟨low, -⟩ | rfl
  · omega
  · omega
  · exact absurd high (by decide)

theorem isDigit_of_isBlank {c : Char} (blank : isBlank c = true) : c.isDigit = false := by
  rw [Bool.eq_false_iff]
  intro digit
  exact Bool.false_ne_true ((isBlank_of_isDigit digit).symm.trans blank)

theorem isWordChar_of_isBlank {c : Char} (blank : isBlank c = true) : isWordChar c = false := by
  rw [Bool.eq_false_iff]
  intro wordChar
  have isLetterOrDigit : isLetter c = true ∨ c.isDigit = true := by
    simpa [isWordChar, isLetter, Char.isAlphanum, or_right_comm] using wordChar
  have notBlank : isBlank c = false := isLetterOrDigit.elim isBlank_of_isLetter isBlank_of_isDigit
  exact Bool.false_ne_true (notBlank.symm.trans blank)

/-- A run of characters with something else behind it is cut off there. -/
theorem takeWhile_append_of_ends {p : Char → Bool} {run rest : List Char}
    (inside : ∀ c ∈ run, p c = true) (ends : ∀ c ∈ rest.head?, p c = false) :
    (run ++ rest).takeWhile p = run ∧ (run ++ rest).dropWhile p = rest := by
  rw [List.takeWhile_append_of_pos inside, List.dropWhile_append_of_pos inside]
  cases rest with
  | nil => simp
  | cons c rest => simp [ends c rfl]

/-- What a run leaves over begins with something else. -/
theorem head?_dropWhile_not {p : Char → Bool} (text : List Char) :
    ∀ c ∈ (text.dropWhile p).head?, p c = false := by
  intro c isHead
  have outside := List.head?_dropWhile_not p text
  rw [Option.mem_def.mp isHead] at outside
  exact outside

/-! ## Shapes -/

theorem IsWord.isLetter_head {text : List Char} {c : Char} (isWord : IsWord text)
    (isHead : text.head? = some c) : isLetter c = true := by
  obtain ⟨first, others, rfl, letter, -⟩ := isWord
  cases isHead
  exact letter

/-- No number is a word. -/
theorem not_isWord_of_digits {text : List Char} (digits : ∀ c ∈ text, c.isDigit = true) :
    ¬ IsWord text := by
  rintro ⟨first, others, rfl, letter, -⟩
  have digit : first.isDigit = true := digits first List.mem_cons_self
  exact Bool.false_ne_true ((isDigit_of_isLetter letter).symm.trans digit)

theorem Keyword.isWord_text (word : Keyword) : IsWord word.text.toList := by
  cases word <;> exact ⟨_, _, rfl, rfl, List.all_eq_true.mp rfl⟩

/-- The first character of a symbol begins a symbol, and it is no letter and no digit. -/
theorem Symbol.exists_head (spelled : Symbol) :
    ∃ first others, spelled.text.toList = first :: others ∧ isLetter first = false ∧
      first.isDigit = false ∧ isBlank first = false ∧ (ofChar? first).isSome = true := by
  cases spelled <;> exact ⟨_, _, rfl, by decide, by decide, by decide, rfl⟩

theorem Symbol.not_isWord_text (spelled : Symbol) : ¬ IsWord spelled.text.toList := by
  intro isWord
  obtain ⟨first, others, isText, noLetter, -⟩ := spelled.exists_head
  have letter : isLetter first = true := isWord.isLetter_head (by rw [isText]; rfl)
  exact Bool.false_ne_true (noLetter.symm.trans letter)

namespace Kind

/-- A token has at least one character, and begins with no white space. -/
theorem exists_head {kind : Kind} (hasShape : kind.HasShape) :
    ∃ first others, kind.literal.toList = first :: others ∧ isBlank first = false := by
  cases kind with
  | ident name =>
      obtain ⟨first, others, isText, letter, -⟩ := hasShape
      exact ⟨first, others, isText, isBlank_of_isLetter letter⟩
  | int digits =>
      obtain ⟨first, others, isText⟩ := List.exists_cons_of_ne_nil hasShape.1
      have digit : first.isDigit = true := hasShape.2 first (isText ▸ List.mem_cons_self)
      exact ⟨first, others, isText, isBlank_of_isDigit digit⟩
  | symbol spelled =>
      obtain ⟨first, others, isText, -, -, notBlank, -⟩ := spelled.exists_head
      exact ⟨first, others, isText, notBlank⟩
  | keyword word =>
      obtain ⟨first, others, isText, letter, -⟩ := word.isWord_text
      exact ⟨first, others, isText, isBlank_of_isLetter letter⟩
  | illegal c => exact ⟨c, [], String.toList_ofList, hasShape.1⟩
  | eof => exact hasShape.elim

/-- White space belongs to no token, and neither does the end of the text. -/
theorem endsBefore_of_blank (kind : Kind) {after : List Char}
    (blank : ∀ c ∈ after.head?, isBlank c = true) : kind.EndsBefore after := by
  have noEquals : ∀ c ∈ after.head?, c ≠ '=' := by
    rintro c isHead rfl
    exact absurd (blank _ isHead) (by decide)
  cases kind with
  | ident name => exact fun c isHead => isWordChar_of_isBlank (blank c isHead)
  | keyword word => exact fun c isHead => isWordChar_of_isBlank (blank c isHead)
  | int digits => exact fun c isHead => isDigit_of_isBlank (blank c isHead)
  | symbol spelled =>
      cases spelled with
      | assign => exact noEquals
      | bang => exact noEquals
      | _ => trivial
  | illegal c => trivial
  | eof => trivial

/-- The characters that begin something. -/
theorem hasShape_illegal_iff {c : Char} :
    HasShape (.illegal c) ↔ isBlank c = false ∧ isLetter c = false ∧ c.isDigit = false ∧
      Symbol.ofChar? c = none := by
  refine and_congr_right fun _ => ⟨fun nothing => ⟨?_, ?_, ?_⟩, fun ⟨noLetter, noDigit, noSymbol⟩ => ?_⟩
  · rw [Bool.eq_false_iff]
    intro letter
    have isWord : IsWord [c] := ⟨c, [], rfl, letter, by simp⟩
    exact nothing (.ident (String.ofList [c])) (by simpa [IsLexeme] using isWord) (by simp [literal])
  · rw [Bool.eq_false_iff]
    intro digit
    exact nothing (.int (String.ofList [c])) (by simpa [IsLexeme] using digit) (by simp [literal])
  · cases isSymbol : Symbol.ofChar? c with
    | none => rfl
    | some spelled =>
        exact absurd (by simp [literal, Symbol.text_of_ofChar? isSymbol])
          (nothing (.symbol spelled) trivial)
  · intro other isLexeme isHead
    cases other with
    | ident name =>
        exact Bool.false_ne_true (noLetter.symm.trans (isLexeme.isLetter_head isHead))
    | int digits =>
        have isFirst := List.mem_of_mem_head? isHead
        exact Bool.false_ne_true (noDigit.symm.trans (isLexeme.2 c isFirst))
    | symbol spelled =>
        obtain ⟨first, others, isText, -, -, -, begins⟩ := spelled.exists_head
        rw [literal, isText] at isHead
        cases isHead
        simp [noSymbol] at begins
    | keyword word =>
        exact Bool.false_ne_true (noLetter.symm.trans (word.isWord_text.isLetter_head isHead))
    | illegal _ => exact isLexeme
    | eof => exact isLexeme

/-! ## Reading a token of the right shape -/

/-- A word is read up to its end, and is then looked up. -/
theorem scan_word {text rest others : List Char} {first : Char} (isWord : IsWord text)
    (isText : text = first :: others) (ends : ∀ c ∈ rest.head?, isWordChar c = false) :
    scan first (others ++ rest) = (ofWord (String.ofList text), rest) := by
  obtain ⟨head, more, isHead, letter, inside⟩ := isWord
  rw [isText] at isHead
  cases isHead
  obtain ⟨sameRun, sameRest⟩ := takeWhile_append_of_ends inside ends
  rw [scan, if_pos letter, sameRun, sameRest, isText]

/-- A symbol of one character is read as such unless an equals sign makes it longer. -/
theorem scan_of_short {first : Char} {rest : List Char} {short : Symbol}
    (noLetter : isLetter first = false) (noDigit : first.isDigit = false)
    (isShort : Symbol.ofChar? first = some short)
    (ends : ∀ c ∈ rest.head?, short.withEquals? = none ∨ c ≠ '=') :
    scan first rest = (.symbol short, rest) := by
  rw [scan, noLetter, noDigit, if_neg Bool.false_ne_true, if_neg Bool.false_ne_true, isShort]
  cases isLong : short.withEquals? with
  | none => simp [isLong]
  | some long =>
      cases rest with
      | nil => simp [isLong]
      | cons c rest =>
          have different : c ≠ '=' := by simpa [isLong] using ends c rfl
          simp [isLong, different]

/-- A token of the right shape is read as what it is if nothing behind it belongs to it. -/
theorem scan_of_shape {kind : Kind} {first : Char} {others rest : List Char}
    (hasShape : kind.HasShape) (byTable : kind.ByTable) (ends : kind.EndsBefore rest)
    (isText : kind.literal.toList = first :: others) :
    scan first (others ++ rest) = (kind, rest) := by
  cases kind with
  | ident name =>
      have noKeyword : Keyword.ofText? name = none := by
        have listed := byTable hasShape
        simpa [literal] using listed
      rw [scan_word hasShape isText ends, String.ofList_toList, ofWord, noKeyword]
  | keyword word =>
      rw [scan_word word.isWord_text isText ends, String.ofList_toList, ofWord,
        Keyword.ofText?_text]
  | int digits =>
      have inside : ∀ c ∈ first :: others, c.isDigit = true := isText ▸ hasShape.2
      obtain ⟨digit, inside⟩ := List.forall_mem_cons.mp inside
      have noLetter : isLetter first = false := by
        rw [Bool.eq_false_iff]
        intro letter
        exact Bool.false_ne_true ((isDigit_of_isLetter letter).symm.trans digit)
      obtain ⟨sameRun, sameRest⟩ := takeWhile_append_of_ends inside ends
      rw [scan, noLetter, if_neg Bool.false_ne_true, if_pos digit, sameRun, sameRest, ← isText,
        literal, String.ofList_toList]
  | symbol spelled =>
      cases spelled with
      | assign =>
          obtain ⟨rfl, rfl⟩ : '=' = first ∧ [] = others := List.cons.inj isText
          exact scan_of_short rfl rfl rfl fun c isHead => Or.inr (ends c isHead)
      | bang =>
          obtain ⟨rfl, rfl⟩ : '!' = first ∧ [] = others := List.cons.inj isText
          exact scan_of_short rfl rfl rfl fun c isHead => Or.inr (ends c isHead)
      | _ =>
          cases isText
          rfl
  | illegal c =>
      obtain ⟨-, noLetter, noDigit, noSymbol⟩ := hasShape_illegal_iff.mp hasShape
      rw [literal, String.toList_ofList] at isText
      cases isText
      simp [scan, noLetter, noDigit, noSymbol]
  | eof => exact hasShape.elim

/-! ## What is read has its shape -/

theorem isWord_run {first : Char} (letter : isLetter first = true) (rest : List Char) :
    IsWord (first :: rest.takeWhile isWordChar) :=
  ⟨first, _, rfl, letter, fun _ => List.mem_takeWhile_imp⟩

/-- What does not look like a word is not in the table. -/
theorem byTable_of_not_isWord {kind : Kind} (noWord : ¬ IsWord kind.literal.toList) :
    kind.ByTable :=
  fun isWord => absurd isWord noWord

theorem ofWord_spelled {text rest : List Char} (isWord : IsWord text)
    (ends : ∀ c ∈ rest.head?, isWordChar c = false) :
    (ofWord (String.ofList text)).HasShape ∧ (ofWord (String.ofList text)).ByTable ∧
      (ofWord (String.ofList text)).EndsBefore rest := by
  unfold ofWord
  split
  · next word isKnown =>
      have listed : (Keyword.ofText? word.text).isSome = true := by
        rw [Keyword.ofText?_text, Option.isSome_some]
      exact ⟨trivial, fun _ => iff_of_true ⟨word, rfl⟩ listed, ends⟩
  · next isUnknown =>
      refine ⟨by simpa [HasShape, IsLexeme] using isWord, fun _ => iff_of_false (by simp) ?_, ends⟩
      rw [literal, isUnknown]
      simp

/-- Whatever is read where no white space is has the shape of its kind, and ends where nothing
more belongs to it. -/
theorem scan_spelled {c : Char} (notBlank : isBlank c = false) (rest : List Char) :
    (scan c rest).1.HasShape ∧ (scan c rest).1.ByTable ∧
      (scan c rest).1.EndsBefore (scan c rest).2 := by
  unfold scan
  split
  · next letter => exact ofWord_spelled (isWord_run letter rest) (head?_dropWhile_not rest)
  · next noLetter =>
      split
      · next digit =>
          have digits : ∀ d ∈ c :: rest.takeWhile Char.isDigit, d.isDigit = true :=
            List.forall_mem_cons.mpr ⟨digit, fun _ => List.mem_takeWhile_imp⟩
          refine ⟨⟨by simp, by simpa using digits⟩, byTable_of_not_isWord fun isWord => ?_,
            head?_dropWhile_not rest⟩
          exact noLetter (isWord.isLetter_head (by simp [literal]))
      · next noDigit =>
          cases isSymbol : Symbol.ofChar? c with
          | none =>
              refine ⟨hasShape_illegal_iff.mpr ⟨notBlank, ?_, ?_, isSymbol⟩,
                byTable_of_not_isWord fun isWord => ?_, trivial⟩
              · exact Bool.eq_false_iff.mpr noLetter
              · exact Bool.eq_false_iff.mpr noDigit
              · exact noLetter (isWord.isLetter_head (by simp [literal]))
          | some short =>
              have spelled (symbol : Symbol) : HasShape (.symbol symbol) ∧ ByTable (.symbol symbol) :=
                ⟨trivial, byTable_of_not_isWord symbol.not_isWord_text⟩
              simp only
              split
              · next long rest isLong =>
                  refine ⟨(spelled long).1, (spelled long).2, ?_⟩
                  cases short <;> cases isLong <;> trivial
              · next isLongest =>
                  refine ⟨(spelled short).1, (spelled short).2, ?_⟩
                  cases short with
                  | assign | bang =>
                      intro d isHead isEquals
                      obtain ⟨others, rfl⟩ := List.head?_eq_some_iff.mp isHead
                      exact isLongest _ others rfl (isEquals ▸ rfl)
                  | _ => trivial

end Kind

/-! ## Texts -/

namespace Cursor

theorem next_of_blank {cursor : Cursor} (areBlank : ∀ c ∈ cursor.rest, isBlank c = true) :
    cursor.next.1.kind = .eof := by
  rw [next, List.dropWhile_eq_nil_iff.mpr areBlank]

/-- White space in front of a token is skipped, and the token is read. -/
theorem next_of_token {cursor : Cursor} {blanks rest : List Char} {kind : Kind}
    (isRest : cursor.rest = blanks ++ (kind.literal.toList ++ rest))
    (areBlank : ∀ c ∈ blanks, isBlank c = true) (hasShape : kind.HasShape)
    (byTable : kind.ByTable) (ends : kind.EndsBefore rest) :
    cursor.next =
      (⟨kind, cursor.offset + byteLength blanks,
          cursor.offset + byteLength blanks + byteLength kind.literal.toList⟩,
        { cursor with
          rest := rest
          offset := cursor.offset + byteLength blanks + byteLength kind.literal.toList }) := by
  obtain ⟨first, others, isText, notBlank⟩ := Kind.exists_head hasShape
  have stops : ∀ c ∈ (kind.literal.toList ++ rest).head?, isBlank c = false := by
    rw [isText]
    rintro c ⟨⟩
    exact notBlank
  obtain ⟨sameRun, sameRest⟩ := takeWhile_append_of_ends areBlank stops
  rw [isText, List.cons_append] at sameRest
  have isScanned := Kind.scan_of_shape hasShape byTable ends isText
  rw [next, isRest, sameRun, isText, List.cons_append, sameRest]
  simp only [isScanned, isText]

/-- The tokens that are read are spelled by the text. -/
theorem spelled_words (cursor : Cursor) : Spelled cursor.offset cursor.rest cursor.words := by
  induction cursor using words.induct with
  | case1 cursor atEnd =>
      rw [words_of_end atEnd]
      refine .blank (List.dropWhile_eq_nil_iff.mp ?_)
      unfold next at atEnd
      split at atEnd
      · assumption
      · exact absurd atEnd (Kind.scan_ne_eof _ _)
  | case2 cursor notEnd ih =>
      rw [words_of_next notEnd]
      cases isRest : cursor.rest.dropWhile isBlank with
      | nil => exact absurd (next_of_blank (List.dropWhile_eq_nil_iff.mp isRest)) notEnd
      | cons c rest =>
          have areBlank : ∀ d ∈ cursor.rest.takeWhile isBlank, isBlank d = true :=
            fun _ => List.mem_takeWhile_imp
          have notBlank : isBlank c = false := by
            apply head?_dropWhile_not cursor.rest
            rw [isRest]
            rfl
          obtain ⟨hasShape, byTable, ends⟩ := Kind.scan_spelled notBlank rest
          have cut : cursor.rest = cursor.rest.takeWhile isBlank ++
              ((Kind.scan c rest).1.literal.toList ++ (Kind.scan c rest).2) := by
            rw [Kind.literal_append_scan, ← isRest, List.takeWhile_append_dropWhile]
          rw [next_of_token cut areBlank hasShape byTable ends] at ih ⊢
          have spelled := Spelled.token areBlank hasShape byTable ends ih rfl
          rwa [← cut] at spelled

end Cursor

/-- A text that spells tokens is read as these. -/
theorem Spelled.words_eq {offset : Nat} {text : List Char} {tokens : List Token}
    (spelled : Spelled offset text tokens) (exhausted : Bool) :
    (⟨text, offset, exhausted⟩ : Cursor).words = tokens := by
  induction spelled with
  | blank areBlank => exact Cursor.words_of_end (Cursor.next_of_blank areBlank)
  | @token start blanks rest kind others areBlank hasShape byTable ends _ offset isStart ih =>
      subst isStart
      have isNext :
          (⟨blanks ++ (kind.literal.toList ++ rest), offset, exhausted⟩ : Cursor).next = _ :=
        Cursor.next_of_token rfl areBlank hasShape byTable ends
      rw [Cursor.words_of_next, isNext, ih]
      rw [isNext]
      rintro rfl
      exact hasShape

/-- The literal of a token is read as this token. -/
theorem Cursor.words_of_literal {kind : Kind} (hasShape : kind.HasShape) (byTable : kind.ByTable) :
    (ofText kind.literal).words = [⟨kind, 0, kind.literal.utf8ByteSize⟩] := by
  have ends : kind.EndsBefore [] := kind.endsBefore_of_blank (by simp)
  have spelled : Spelled 0 ([] ++ (kind.literal.toList ++ [])) _ :=
    @Spelled.token 0 [] [] kind [] (by simp) hasShape byTable ends (.blank (by simp)) 0 rfl
  rw [List.nil_append, List.append_nil] at spelled
  rw [ofText, spelled.words_eq, Nat.zero_add, byteLength_toList]

end Monkey
