/-
# The first impossible token

The first diagnostic names the first token with which the source stops being the beginning of
a program. The tokens before it can be completed, and with it nothing can, since what is read
up to a diagnostic does not depend on what stands behind its token. So the end of the source
is named exactly if the source is not wrong anywhere but only unfinished.

To begin a program is to begin the tokens of a source that is read without a diagnostic. So a
completion has to be written down as a text: with a blank behind each of them, all tokens can
stand next to one another.
-/

import Mathlib
import Monkey.Proofs.Grammar.Completeness
import Monkey.Proofs.Grammar.Completion
import Monkey.Proofs.Program.Reparse
import Monkey.Proofs.Token.Spans

namespace Monkey

open Grammar

/-! ## Texts for tokens -/

/-- Tokens of the right shape are the tokens of some text. -/
theorem exists_text {kinds : List Kind} (shapes : ∀ kind ∈ kinds, kind.HasShape ∧ kind.ByTable) :
    ∃ text, (Cursor.ofText text).words.map Token.kind = kinds := by
  have spelled : ∃ text, SpelledAs text kinds := by
    induction kinds with
    | nil => exact ⟨[], .nil⟩
    | cons kind others ih =>
        obtain ⟨shape, othersShapes⟩ := List.forall_mem_cons.mp shapes
        obtain ⟨text, spelled⟩ := ih othersShapes
        have ends : kind.EndsBefore (' ' :: text) := kind.endsBefore_of_blank (by simp; decide)
        exact ⟨_, .token shape ends (spelled.blank rfl)⟩
  obtain ⟨text, spelled⟩ := spelled
  obtain ⟨tokens, spelled, isKinds⟩ := spelled 0
  use String.ofList text
  rw [Cursor.ofText, String.toList_ofList, spelled.words_eq, isKinds]

/-- Completions can be written down. -/
theorem Grammar.Fills.shape {kind : Kind} (fills : Fills kind) : kind.HasShape ∧ kind.ByTable := by
  cases kind with
  | symbol spelled => exact ⟨trivial, Kind.byTable_of_not_isWord spelled.not_isWord_text⟩
  | ident name =>
      obtain rfl : name = "x" := fills
      exact IsIdentifier.shape (by cbv)
  | keyword word => cases fills
  | int digits => cases fills
  | illegal c => cases fills
  | eof => cases fills

/-! ## Places in a source -/

namespace Cursor

/-- The tokens before the first place where this one stands. -/
def tokensBefore (cursor : Cursor) (token : Token) : List Token :=
  cursor.tokens.takeWhile (· ≠ token)

variable {cursor : Cursor} {passed : List Token} {place : Tape}
  (passes : (Tape.ofCursor cursor).Passes passed place)

include passes

/-- Behind the tokens that have been passed comes the end mark or another word. -/
theorem peek_cases : place.peek = cursor.endMark ∧ cursor.words = passed ∨
    ∃ others, cursor.words = passed ++ place.peek :: others := by
  have isWords : cursor.words = passed ++ place.ahead := passes.ahead
  cases isAhead : place.ahead with
  | nil =>
      have isEnd : place.peek = cursor.endMark := by
        rw [Tape.peek, isAhead, passes.finish]
        rfl
      exact Or.inl ⟨isEnd, by rw [isWords, isAhead, List.append_nil]⟩
  | cons token others =>
      have isToken : place.peek = token := by rw [Tape.peek, isAhead]; rfl
      exact Or.inr ⟨others, by rw [isWords, isAhead, isToken]⟩

theorem tokens_of_passes : ∃ others, cursor.tokens = passed ++ place.peek :: others := by
  rw [tokens]
  rcases peek_cases passes with ⟨isEnd, isPassed⟩ | ⟨others, isWords⟩
  · exact ⟨[], by rw [isPassed, isEnd]⟩
  · exact ⟨others ++ [cursor.endMark], by rw [isWords, List.append_assoc, List.cons_append]⟩

/-- No token stands in a text twice, so a token tells which others come before it. -/
theorem tokensBefore_of_passes : cursor.tokensBefore place.peek = passed := by
  obtain ⟨others, isTokens⟩ := tokens_of_passes passes
  have distinct := cursor.nodup_tokens
  rw [isTokens] at distinct
  have notMember : place.peek ∉ passed := fun isMember =>
    (List.nodup_append.mp distinct).2.2 _ isMember _ List.mem_cons_self rfl
  have differs : ∀ token ∈ passed, decide (token ≠ place.peek) = true := by
    intro token isMember
    apply decide_eq_true
    rintro rfl
    exact notMember isMember
  rw [tokensBefore, isTokens, List.takeWhile_append_of_pos differs]
  simp

end Cursor

/-- The tokens of some source that is read without a diagnostic begin with these kinds. -/
def BeginSource (kinds : List Kind) : Prop :=
  ∃ source, kinds <+: (Cursor.ofText source).words.map Token.kind ∧
    (parse source).diagnostics = []

/-- What can be completed to a program begins a source, if the tokens have the right shapes. -/
theorem Grammar.Completable.beginSource {kinds : List Kind}
    (completable : Completable IsSomeProgram kinds)
    (shapes : ∀ kind ∈ kinds, kind.HasShape ∧ kind.ByTable) : BeginSource kinds := by
  obtain ⟨more, fill, program, isProgram⟩ := completable
  have allShapes := List.forall_mem_append.mpr ⟨shapes, fun kind isMore => (fill kind isMore).shape⟩
  obtain ⟨source, isKinds⟩ := exists_text allShapes
  rw [← isKinds] at isProgram
  have isParsed : parse source = ⟨program, []⟩ := Tape.parse_of_isProgram isProgram
  refine ⟨source, ?_, by rw [isParsed]⟩
  rw [isKinds]
  exact List.prefix_append kinds more

/-- Tokens that have been read up to a diagnostic, the one that it names among them, are not the
beginning of anything that is read without one. -/
theorem Tape.diagnostics_ne_nil_of_prefix {tape image place : Tape} {passed : List Token}
    {diagnostic : Diagnostic} (notEnd : place.peek.kind ≠ .eof)
    (stays : ∀ more, more.head? = place.ahead.head? →
      (tape.facing (passed ++ more)).parse.diagnostics.head? = some diagnostic)
    (begins : (passed ++ [place.peek]).map Token.kind <+: image.kinds) :
    image.parse.diagnostics ≠ [] := by
  intro noErrors
  obtain ⟨others, isKinds⟩ := begins
  have isProgram := isProgram_of_parse noErrors
  let more := place.peek :: others.map fun kind => (⟨kind, 0, 0⟩ : Token)
  have isNext : place.ahead.head? = some place.peek :=
    congrArg List.head? (ahead_eq_cons notEnd)
  have sameKinds : (tape.facing (passed ++ more)).kinds = image.kinds := by
    rw [← isKinds]
    simp [kinds, facing, more, Function.comp_def]
  rw [← sameKinds] at isProgram
  have isParsed := parse_of_isProgram isProgram
  have isFirst := stays more isNext.symm
  rw [isParsed] at isFirst
  cases isFirst

/-- Up to the token that the first diagnostic names, a source begins another one that is read
without a diagnostic, and from that token on it does not. -/
theorem parse_place_of_first {source : String} {diagnostic : Diagnostic}
    (isFirst : (parse source).diagnostics.head? = some diagnostic) :
    ∃ passed place, (Tape.ofCursor (.ofText source)).Passes passed place ∧
      diagnostic.token = place.peek ∧ BeginSource (passed.map Token.kind) ∧
      (place.peek.kind ≠ .eof → ∀ image : Tape,
        (passed ++ [place.peek]).map Token.kind <+: image.kinds →
          image.parse.diagnostics ≠ []) := by
  obtain ⟨passed, place, passes, isToken, stays⟩ := Tape.head?_diagnostics_facing isFirst
  obtain ⟨before, there, passesBefore, isThere, completable⟩ :=
    Tape.completable_of_diagnostic isFirst
  have same : before = passed := by
    rw [← Cursor.tokensBefore_of_passes passes, ← Cursor.tokensBefore_of_passes passesBefore,
      ← isThere, isToken]
  subst same
  refine ⟨before, place, passes, isToken, ?_, fun notEnd image =>
    Tape.diagnostics_ne_nil_of_prefix notEnd stays⟩
  apply completable.beginSource
  rw [List.forall_mem_map]
  intro token isMember
  have isWords : (Cursor.ofText source).words = before ++ place.ahead := passes.ahead
  have isWord := isWords ▸ List.mem_append_left place.ahead isMember
  have cuts := (Cursor.ofText source).spelled_words.tokenization
  exact ⟨cuts.hasShape token isWord, cuts.byTable token isWord⟩

/-- The first diagnostic of a source names the first token that is impossible there. What comes
before it begins a source without diagnostics, and with it nothing does. The end is named if and
only if the source is wrong but begins one as a whole. -/
theorem parse_names_first_impossible (source : String) :
    (∀ diagnostic, (parse source).diagnostics.head? = some diagnostic →
      (Cursor.ofText source).tokensBefore diagnostic.token ++ [diagnostic.token] <+:
          (Cursor.ofText source).tokens ∧
        BeginSource (((Cursor.ofText source).tokensBefore diagnostic.token).map Token.kind) ∧
        (diagnostic.token.kind ≠ .eof → ∀ tape : Tape,
          ((Cursor.ofText source).tokensBefore diagnostic.token ++ [diagnostic.token]).map
              Token.kind <+: tape.kinds →
            tape.parse.diagnostics ≠ [])) ∧
    ((∃ diagnostic, (parse source).diagnostics.head? = some diagnostic ∧
        diagnostic.token.kind = .eof) ↔
      (parse source).diagnostics ≠ [] ∧
        BeginSource ((Cursor.ofText source).words.map Token.kind)) := by
  refine ⟨?_, ?_, ?_⟩
  · intro diagnostic isFirst
    obtain ⟨passed, place, passes, isToken, possible, impossible⟩ := parse_place_of_first isFirst
    have isBefore := Cursor.tokensBefore_of_passes passes
    obtain ⟨others, isTokens⟩ := Cursor.tokens_of_passes passes
    rw [isToken, isBefore]
    refine ⟨⟨others, ?_⟩, possible, impossible⟩
    rw [isTokens, List.append_assoc, List.singleton_append]
  · rintro ⟨diagnostic, isFirst, isEnd⟩
    obtain ⟨passed, place, passes, isToken, possible, -⟩ := parse_place_of_first isFirst
    rw [isToken] at isEnd
    have isWrong : (parse source).diagnostics ≠ [] := by
      intro noErrors
      rw [noErrors] at isFirst
      cases isFirst
    refine ⟨isWrong, ?_⟩
    rcases Cursor.peek_cases passes with ⟨-, isPassed⟩ | ⟨others, isWords⟩
    · rwa [isPassed]
    · have isMember : place.peek ∈ (Cursor.ofText source).words := by simp [isWords]
      exact absurd isEnd (Cursor.kind_ne_eof isMember)
  · rintro ⟨isWrong, other, begins, isRead⟩
    obtain ⟨diagnostic, isFirst⟩ := Option.isSome_iff_exists.mp (List.isSome_head?.mpr isWrong)
    refine ⟨diagnostic, isFirst, ?_⟩
    obtain ⟨passed, place, passes, isToken, -, impossible⟩ := parse_place_of_first isFirst
    rw [isToken]
    by_contra notEnd
    rcases Cursor.peek_cases passes with ⟨isEnd, -⟩ | ⟨others, isWords⟩
    · exact notEnd (by rw [isEnd]; rfl)
    · apply impossible notEnd (Tape.ofCursor (.ofText other)) ?_ isRead
      apply List.IsPrefix.trans ?_ begins
      rw [isWords]
      exact ⟨others.map Token.kind, by simp⟩

/-- A source can begin with the keyword of a binding, but not with a number behind it. -/
theorem parse_names_first_impossible_let :
    BeginSource [.keyword .letWord] ∧
      ∀ tape : Tape, [.keyword .letWord, .int "5"] <+: tape.kinds →
        tape.parse.diagnostics ≠ [] := by
  have isFirst : (parse "let 5 + x").diagnostics.head? =
      some (.unexpected .identifier ⟨.int "5", 4, 5⟩) := by cbv
  have isBefore : (Cursor.ofText "let 5 + x").tokensBefore ⟨.int "5", 4, 5⟩ =
      [⟨.keyword .letWord, 0, 3⟩] := by cbv
  have names := (parse_names_first_impossible "let 5 + x").1 _ isFirst
  rw [Diagnostic.token, isBefore] at names
  exact ⟨names.2.1, names.2.2 (by simp)⟩

end Monkey
