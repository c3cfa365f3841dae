/-
# Where diagnostics are

The diagnostics of a source come in the order of its tokens, and hardly ever do two of them name
the same one. The reason is in how a rule stops. Either it has just taken the token that it
rejects, and whatever is read afterwards lies behind it. Or it asks for something else than the
token that comes next, and this one is still ahead when the rest of the statement is skipped.

Then skipping passes it, unless the broken statement has ended right before it. With a semicolon
it cannot have ended, since no rule asks for a symbol or a name behind a semicolon. With a closing
brace it can, and so the token begins a statement of its own and may be rejected once more.
-/

import Mathlib
import Monkey.Proofs.Parse.Budget
import Monkey.Proofs.Token.Spans

namespace Monkey

/-! ## Diagnostics in the order of tokens -/

/-- Of tokens that are gone through from left to right, each is named by one diagnostic at most,
except that one which follows a closing brace, and is not the last, may be found unexpected and be
rejected again. What comes before the tokens is the first index. -/
inductive InOrder : Option Token → List Token → List Diagnostic → Prop
  | done {before : Option Token} {tokens : List Token} : InOrder before tokens []
  | skip {before : Option Token} {token : Token} {others : List Token}
    {diagnostics : List Diagnostic} (later : InOrder (some token) others diagnostics) :
    InOrder before (token :: others) diagnostics
  | once {before : Option Token} {token : Token} {others : List Token} {diagnostic : Diagnostic}
    {diagnostics : List Diagnostic} (isToken : diagnostic.token = token)
    (later : InOrder (some token) others diagnostics) :
    InOrder before (token :: others) (diagnostic :: diagnostics)
  | twice {brace token : Token} {others : List Token} {expected : Expected}
    {diagnostic : Diagnostic} {diagnostics : List Diagnostic}
    (isBrace : brace.kind = .symbol .rightBrace) (isToken : diagnostic.token = token)
    (notLast : others ≠ []) (later : InOrder (some token) others diagnostics) :
    InOrder (some brace) (token :: others)
      (.unexpected expected token :: diagnostic :: diagnostics)

namespace InOrder

variable {before : Option Token} {tokens : List Token} {diagnostics : List Diagnostic}

/-- If nothing is used of what comes before, it may be anything. -/
theorem of_none (inOrder : InOrder none tokens diagnostics) :
    InOrder before tokens diagnostics := by
  cases inOrder with
  | done => exact .done
  | skip later => exact .skip later
  | once isToken later => exact .once isToken later

/-- Nothing is used of what comes before the last token. -/
theorem of_last {token : Token} {other : Option Token}
    (inOrder : InOrder other [token] diagnostics) : InOrder before [token] diagnostics := by
  cases inOrder with
  | done => exact .done
  | skip later => exact .skip later
  | once isToken later => exact .once isToken later
  | twice _ _ notLast _ => exact absurd rfl notLast

theorem eq_nil (inOrder : InOrder before [] diagnostics) : diagnostics = [] := by
  cases inOrder with
  | done => rfl

theorem mem (inOrder : InOrder before tokens diagnostics) :
    ∀ diagnostic ∈ diagnostics, diagnostic.token ∈ tokens := by
  induction inOrder with
  | done => simp
  | skip _ ih => exact fun diagnostic isOne => List.mem_cons_of_mem _ (ih diagnostic isOne)
  | once isToken _ ih =>
      refine List.forall_mem_cons.mpr ⟨isToken ▸ List.mem_cons_self, ?_⟩
      exact fun diagnostic isOne => List.mem_cons_of_mem _ (ih diagnostic isOne)
  | twice _ isToken _ _ ih =>
      refine List.forall_mem_cons.mpr ⟨List.mem_cons_self, ?_⟩
      refine List.forall_mem_cons.mpr ⟨isToken ▸ List.mem_cons_self, ?_⟩
      exact fun diagnostic isOne => List.mem_cons_of_mem _ (ih diagnostic isOne)

/-- A token that does not stand further behind is not named there. -/
theorem ne_of_notMem (inOrder : InOrder before tokens diagnostics) {token : Token}
    (notMember : token ∉ tokens) : ∀ diagnostic ∈ diagnostics, diagnostic.token ≠ token :=
  fun diagnostic isOne isToken => notMember (isToken ▸ inOrder.mem diagnostic isOne)

/-- The places of the diagnostics never decrease. -/
theorem pairwise (inOrder : InOrder before tokens diagnostics) (distinct : tokens.Nodup) :
    diagnostics.Pairwise fun earlier later =>
      tokens.idxOf earlier.token ≤ tokens.idxOf later.token := by
  have further {token : Token} {others : List Token} {diagnostics : List Diagnostic}
      {before : Option Token} (later : InOrder before others diagnostics) (isFresh : token ∉ others)
      (isSorted : diagnostics.Pairwise fun earlier later =>
        others.idxOf earlier.token ≤ others.idxOf later.token) :
      diagnostics.Pairwise fun earlier later =>
        (token :: others).idxOf earlier.token ≤ (token :: others).idxOf later.token := by
    refine isSorted.imp_of_mem fun isEarlier isLater inThisOrder => ?_
    rw [List.idxOf_cons_ne _ (later.ne_of_notMem isFresh _ isEarlier).symm,
      List.idxOf_cons_ne _ (later.ne_of_notMem isFresh _ isLater).symm]
    exact Nat.succ_le_succ inThisOrder
  have first {token : Token} {others : List Token} {diagnostic other : Diagnostic}
      (isToken : diagnostic.token = token) :
      (token :: others).idxOf diagnostic.token ≤ (token :: others).idxOf other.token := by
    rw [isToken, List.idxOf_cons_self]
    exact Nat.zero_le _
  induction inOrder with
  | done => exact .nil
  | skip later ih =>
      obtain ⟨isFresh, areDistinct⟩ := List.nodup_cons.mp distinct
      exact further later isFresh (ih areDistinct)
  | once isToken later ih =>
      obtain ⟨isFresh, areDistinct⟩ := List.nodup_cons.mp distinct
      exact .cons (fun _ _ => first isToken) (further later isFresh (ih areDistinct))
  | twice _ isToken _ later ih =>
      obtain ⟨isFresh, areDistinct⟩ := List.nodup_cons.mp distinct
      refine .cons (fun _ _ => first rfl) (.cons (fun _ _ => first isToken) ?_)
      exact further later isFresh (ih areDistinct)

/-- No token is named more than twice. -/
theorem count_le (inOrder : InOrder before tokens diagnostics) (distinct : tokens.Nodup)
    (token : Token) : (diagnostics.map Diagnostic.token).count token ≤ 2 := by
  have notLater {other : Token} {others : List Token} {diagnostics : List Diagnostic}
      (later : InOrder (some other) others diagnostics) (isFresh : other ∉ others) :
      (diagnostics.map Diagnostic.token).count other = 0 := by
    refine List.count_eq_zero.mpr fun isNamed => ?_
    obtain ⟨diagnostic, isOne, isOther⟩ := List.mem_map.mp isNamed
    exact later.ne_of_notMem isFresh diagnostic isOne isOther
  induction inOrder with
  | done => exact Nat.zero_le _
  | skip _ ih => exact ih (List.nodup_cons.mp distinct).2
  | @once _ here _ diagnostic _ isToken later ih =>
      obtain ⟨isFresh, areDistinct⟩ := List.nodup_cons.mp distinct
      rw [List.map_cons, List.count_cons, isToken]
      by_cases isHere : here = token
      · subst isHere
        rw [notLater later isFresh]
        simp
      · simpa [isHere] using ih areDistinct
  | @twice _ here _ expected diagnostic _ _ isToken _ later ih =>
      obtain ⟨isFresh, areDistinct⟩ := List.nodup_cons.mp distinct
      rw [List.map_cons, List.map_cons, List.count_cons, List.count_cons, isToken, Diagnostic.token]
      by_cases isHere : here = token
      · subst isHere
        rw [notLater later isFresh]
        simp
      · simpa [isHere] using ih areDistinct

/-- If two in a row name the same token, the first one found it behind a closing brace and asked
for something else. -/
theorem unexpected_of_same (inOrder : InOrder before tokens diagnostics) (distinct : tokens.Nodup)
    {front back : List Diagnostic} {first second : Diagnostic}
    (isSplit : diagnostics = front ++ first :: second :: back)
    (same : first.token = second.token) :
    ∃ expected brace, first = .unexpected expected first.token ∧
      brace.kind = .symbol .rightBrace ∧ [brace, first.token] <:+: before.toList ++ tokens := by
  have wider {token : Token} {others part : List Token} {before : Option Token}
      (isPart : part <:+: (some token).toList ++ others) :
      part <:+: before.toList ++ token :: others :=
    isPart.trans (List.suffix_append before.toList _).isInfix
  induction inOrder generalizing front with
  | done => simp at isSplit
  | skip _ ih =>
      obtain ⟨expected, brace, isFirst, isBrace, isPart⟩ :=
        ih (List.nodup_cons.mp distinct).2 isSplit
      exact ⟨expected, brace, isFirst, isBrace, wider isPart⟩
  | once isToken later ih =>
      obtain ⟨isFresh, areDistinct⟩ := List.nodup_cons.mp distinct
      cases front with
      | nil =>
          cases isSplit
          exact absurd (same.symm.trans isToken) (later.ne_of_notMem isFresh _ List.mem_cons_self)
      | cons diagnostic front =>
          cases isSplit
          obtain ⟨expected, brace, isFirst, isBrace, isPart⟩ := ih areDistinct rfl
          exact ⟨expected, brace, isFirst, isBrace, wider isPart⟩
  | @twice brace token others expected _ _ isBrace isToken _ later ih =>
      obtain ⟨isFresh, areDistinct⟩ := List.nodup_cons.mp distinct
      match front, isSplit with
      | [], isSplit =>
          cases isSplit
          exact ⟨expected, brace, rfl, isBrace, ⟨[], others, rfl⟩⟩
      | [_], isSplit =>
          cases isSplit
          exact absurd (same.symm.trans isToken) (later.ne_of_notMem isFresh _ List.mem_cons_self)
      | _ :: _ :: front, isSplit =>
          cases isSplit
          obtain ⟨expected, brace, isFirst, isBrace, isPart⟩ := ih areDistinct rfl
          exact ⟨expected, brace, isFirst, isBrace, wider isPart⟩

/-- Behind a diagnostic that names the last token there are no others. -/
theorem eq_nil_of_last (inOrder : InOrder before tokens diagnostics) {isEnd : Token → Prop}
    (endsThere : ∀ front token back, tokens = front ++ token :: back → isEnd token → back = [])
    {front back : List Diagnostic} {last : Diagnostic}
    (isSplit : diagnostics = front ++ last :: back) (namesEnd : isEnd last.token) : back = [] := by
  have endsLater {token : Token} {others : List Token}
      (endsThere : ∀ front here back, token :: others = front ++ here :: back → isEnd here →
        back = []) (front : List Token) (here : Token) (back : List Token)
      (isSplit : others = front ++ here :: back) (isLast : isEnd here) : back = [] :=
    endsThere (token :: front) here back (by rw [isSplit, List.cons_append]) isLast
  induction inOrder generalizing front with
  | done => simp at isSplit
  | skip _ ih => exact ih (endsLater endsThere) isSplit
  | once isToken later ih =>
      cases front with
      | nil =>
          cases isSplit
          obtain rfl := endsThere [] _ _ rfl (isToken ▸ namesEnd)
          exact later.eq_nil
      | cons diagnostic front =>
          cases isSplit
          exact ih (endsLater endsThere) rfl
  | twice _ isToken notLast later ih =>
      match front, isSplit with
      | [], isSplit =>
          cases isSplit
          exact absurd (endsThere [] _ _ rfl namesEnd) notLast
      | [_], isSplit =>
          cases isSplit
          exact absurd (endsThere [] _ _ rfl (isToken ▸ namesEnd)) notLast
      | _ :: _ :: front, isSplit =>
          cases isSplit
          exact ih (endsLater endsThere) rfl

end InOrder

/-! ## All diagnostics of a tape -/

namespace Tape

/-- The tokens that are still ahead, the end mark last. -/
def tokens (tape : Tape) : List Token := tape.ahead ++ [⟨.eof, tape.finish, tape.finish⟩]

variable {tape place stopped : Tape} {diagnostics : List Diagnostic}

theorem tokens_of_end (atEnd : tape.ahead = []) : tape.tokens = [tape.peek] := by
  rw [tokens, peek, atEnd]
  rfl

theorem tokens_of_next (notEnd : tape.ahead ≠ []) :
    tape.tokens = tape.peek :: tape.take.tokens := by
  obtain ⟨token, others, isAhead⟩ := List.exists_cons_of_ne_nil notEnd
  rw [tokens, tokens, peek, take, isAhead]
  rfl

theorem tokens_ne_nil (tape : Tape) : tape.tokens ≠ [] :=
  List.append_ne_nil_of_right_ne_nil _ (List.cons_ne_nil _ _)

/-- What is in order behind the next token is in order before it. -/
theorem inOrder_of_take {before : Option Token}
    (inOrder : InOrder tape.take.last tape.take.tokens diagnostics) :
    InOrder before tape.tokens diagnostics := by
  by_cases atEnd : tape.ahead = []
  · have staysAtEnd : tape.take.ahead = [] := by rw [take, atEnd]; rfl
    have sameEnd : tape.take.peek = tape.peek := by rw [peek, peek, staysAtEnd, atEnd]; rfl
    rw [tokens_of_end staysAtEnd, sameEnd] at inOrder
    rw [tokens_of_end atEnd]
    exact inOrder.of_last
  · rw [tokens_of_next atEnd]
    exact .skip inOrder

theorem Takes.inOrder (takes : tape.Takes place)
    (inOrder : InOrder place.last place.tokens diagnostics) :
    InOrder tape.last tape.tokens diagnostics := by
  induction takes with
  | refl => exact inOrder
  | take _ ih => exact inOrder_of_take (ih inOrder)

/-- What needs nothing of the token taken last needs nothing further ahead either. -/
theorem Takes.inOrder_none (takes : tape.Takes place)
    (inOrder : InOrder none place.tokens diagnostics) : InOrder none tape.tokens diagnostics := by
  cases takes with
  | refl => exact inOrder
  | take later => exact inOrder_of_take (later.inOrder inOrder.of_none)

/-- Before a token can have been taken, there is a place where it comes next. -/
theorem Takes.exists_before (takes : tape.take.Takes stopped) :
    ∃ place, tape.Takes place ∧ stopped = place.take := by
  generalize isTaken : tape.take = taken at takes
  induction takes generalizing tape with
  | refl => exact ⟨tape, .refl, isTaken.symm⟩
  | take _ ih =>
      obtain ⟨place, takes, isStopped⟩ := ih rfl
      exact ⟨place, .take (isTaken ▸ takes), isStopped⟩

/-- A broken statement that does not end with a semicolon ends with a brace. -/
theorem exists_brace_of_boundary (isBoundary : tape.atBoundary = true) (unended : tape.Unended) :
    ∃ brace, tape.last = some brace ∧ brace.kind = .symbol .rightBrace := by
  rw [atBoundary] at isBoundary
  cases isLast : tape.last with
  | none =>
      rw [isLast] at isBoundary
      cases isBoundary
  | some token =>
      rw [isLast, Option.map_some] at isBoundary
      split at isBoundary
      · next isSemicolon => exact absurd (Option.some.inj isSemicolon) (unended token isLast)
      · next isBrace => exact ⟨token, rfl, Option.some.inj isBrace⟩
      · cases isBoundary

theorem parse_recover_of_end (atEnd : stopped.ahead = []) : stopped.recover.parse = ⟨[], []⟩ := by
  apply parse_of_end
  apply List.eq_nil_of_length_eq_zero
  rw [← Nat.le_zero, ← List.length_nil (α := Token), ← atEnd]
  exact stopped.takes_recover.length_le

/-- Behind a token that has just been taken and rejected everything is further behind. -/
theorem inOrder_of_taken {diagnostic : Diagnostic} (isToken : diagnostic.token = tape.peek)
    (inOrder : InOrder none tape.take.recover.tokens tape.take.recover.parse.diagnostics) :
    InOrder none tape.tokens (diagnostic :: tape.take.recover.parse.diagnostics) := by
  have later := (takes_recover tape.take).inOrder inOrder.of_none
  by_cases atEnd : tape.ahead = []
  · rw [tokens_of_end atEnd, parse_recover_of_end (by rw [take, atEnd]; rfl)]
    exact .once isToken .done
  · rw [tokens_of_next atEnd]
    exact .once isToken later

/-- A token that was found unexpected and not taken is passed when the rest of the statement is
skipped, unless a brace has ended the statement before it. -/
theorem inOrder_of_next (expected : Expected) (unended : stopped.Unended)
    (inOrder : InOrder none stopped.recover.tokens stopped.recover.parse.diagnostics) :
    InOrder stopped.last stopped.tokens
      (.unexpected expected stopped.peek :: stopped.recover.parse.diagnostics) := by
  by_cases atEnd : stopped.ahead = []
  · rw [tokens_of_end atEnd, parse_recover_of_end atEnd]
    exact .once rfl .done
  rw [tokens_of_next atEnd]
  by_cases isBoundary : stopped.atBoundary = true
  · obtain ⟨brace, isLast, isBrace⟩ := exists_brace_of_boundary isBoundary unended
    have isRecover : stopped.recover = stopped.skipSemicolon := by
      rw [recover_of_boundary isBoundary, isLast, Option.map_some, isBrace, if_pos rfl]
    rw [isRecover] at inOrder ⊢
    by_cases isSemicolon : stopped.peek.kind = .symbol .semicolon
    · rw [skipSemicolon, if_pos isSemicolon] at inOrder ⊢
      exact .once rfl inOrder.of_none
    · rw [skipSemicolon, if_neg isSemicolon] at inOrder ⊢
      rw [tokens_of_next atEnd] at inOrder
      generalize stopped.parse.diagnostics = diagnostics at inOrder ⊢
      cases inOrder with
      | done => exact .once rfl .done
      | skip later => exact .once rfl later
      | once isToken later =>
          rw [isLast]
          exact .twice isBrace isToken (tokens_ne_nil _) later
  · have isRecover := recover_of_next isBoundary atEnd
    have later := (takes_recover stopped.take).inOrder (isRecover ▸ inOrder).of_none
    rw [isRecover]
    exact .once rfl later

/-- The diagnostics of a tape are in the order of its tokens. The first token has one at most. -/
theorem inOrder_parse (tape : Tape) : InOrder none tape.tokens tape.parse.diagnostics := by
  induction tape using parse_induction with
  | atEnd tape isEnd =>
      rw [parse_of_end isEnd]
      exact .done
  | sound tape stmt after nonempty isOk isParsed ih =>
      have takes := (Parser.Rule.statement tape.peek).takes tape.budget tape.take
      rw [Parser.Rule.run, isOk] at takes
      rw [isParsed]
      exact (Takes.take takes).inOrder_none ih
  | broken tape diagnostic stopped nonempty isError isParsed ih =>
      have takes := (Parser.Rule.statement tape.peek).takes tape.budget tape.take
      rw [Parser.Rule.run, isError] at takes
      rw [isParsed]
      cases Parser.names_of_rejected isError with
      | taken isLast =>
          obtain ⟨place, takesBefore, rfl⟩ := Takes.exists_before takes
          have isToken := Option.some.inj isLast.symm
          exact takesBefore.inOrder_none (inOrder_of_taken isToken ih)
      | next expected unended =>
          exact inOrder_of_take (Takes.inOrder takes (inOrder_of_next expected unended ih))

end Tape

/-- Each diagnostic names a token of the source, and the places of these never decrease. Two in a
row name the same token only if the first one finds it behind a closing brace where something else
was asked for, and three never do. The end of the source is named by the last diagnostic alone. -/
theorem parse_diagnostics_in_order (source : String) :
    let tokens := (Cursor.ofText source).tokens
    let diagnostics := (parse source).diagnostics
    tokens.Nodup ∧
    (∀ diagnostic ∈ diagnostics, diagnostic.token ∈ tokens) ∧
    (diagnostics.map fun diagnostic => tokens.idxOf diagnostic.token).Pairwise (· ≤ ·) ∧
    (∀ front first second back, diagnostics = front ++ first :: second :: back →
      first.token = second.token →
        ∃ expected brace, first = .unexpected expected first.token ∧
          brace.kind = .symbol .rightBrace ∧ [brace, first.token] <:+: tokens) ∧
    (∀ token, (diagnostics.map Diagnostic.token).count token ≤ 2) ∧
    ∀ front last back, diagnostics = front ++ last :: back → last.token.kind = .eof → back = [] := by
  intro tokens diagnostics
  have inOrder : InOrder none tokens diagnostics :=
    (Tape.ofCursor (.ofText source)).inOrder_parse
  have distinct : tokens.Nodup := (Cursor.ofText source).nodup_tokens
  refine ⟨distinct, inOrder.mem, List.pairwise_map.mpr (inOrder.pairwise distinct), ?_,
    inOrder.count_le distinct, ?_⟩
  · exact fun _ _ _ _ => inOrder.unexpected_of_same distinct
  · exact fun _ _ _ => inOrder.eq_nil_of_last fun _ _ _ => Cursor.eq_nil_of_eof

/-- In a group that a brace has ended too early the comma is named twice: where the parenthesis
should be, and where a statement should begin. -/
theorem parse_diagnostics_in_order_comma :
    let source := "(fn() \x7b\x7d ,"
    let comma : Token := ⟨.symbol .comma, 9, 10⟩
    (parse source).diagnostics = [.unexpected (.symbol .rightParen) comma, .noOperand comma] ∧
      ∃ brace : Token, brace.kind = .symbol .rightBrace ∧
        [brace, comma] <:+: (Cursor.ofText source).tokens := by
  intro source comma
  have isParsed : (parse source).diagnostics =
      [.unexpected (.symbol .rightParen) comma, .noOperand comma] := by cbv
  obtain ⟨-, -, -, doubled, -, -⟩ := parse_diagnostics_in_order source
  obtain ⟨_, brace, -, isBrace, isPart⟩ := doubled [] _ _ [] isParsed rfl
  exact ⟨isParsed, brace, isBrace, isPart⟩

end Monkey
