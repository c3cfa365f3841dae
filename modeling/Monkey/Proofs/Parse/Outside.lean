/-
# Statements begin outside of blocks

Reading counts the braces that are open, and a closing one without a partner leaves the count at
zero. The count is moved on by taking tokens, whichever rule takes them, and not by the rules that
read blocks. Still the two agree: a block that is read to its end has closed what it opened, so
behind a sound statement the count is what it was before. Behind a broken one skipping goes on
until it is zero, if the tape does not end first.

So each turn of the loop begins outside of all braces, and of a block it passes everything or
nothing. What stands inside a block that is broken, or is never closed, is passed in the same
turn as the brace that opens it, and that turn comes to no statement.
-/

import Monkey.Proofs.Grammar.Braces
import Monkey.Proofs.Grammar.Soundness
import Monkey.Proofs.Parse.Continuation
import Monkey.Proofs.Parse.Turns

namespace Monkey

open Grammar

/-- The braces that are still open behind these tokens. A closing one with no partner does
not count. -/
def openBraces (tokens : List Token) : Nat := (tokens.map Token.kind).foldl Tape.depthAfter 0

/-- Behind other tokens the brace opens a block, and the tokens inside do not close it. -/
structure StaysOpen (before : List Token) (brace : Token) (inside : List Token) : Prop where
  isBrace : brace.kind = .symbol .leftBrace
  isOpen : ∀ part, part <+: inside → openBraces before < openBraces (before ++ brace :: part)

instance decidableStaysOpen (before : List Token) (brace : Token) (inside : List Token) :
    Decidable (StaysOpen before brace inside) :=
  decidable_of_iff
    (brace.kind = .symbol .leftBrace ∧
      ∀ part ∈ inside.inits, openBraces before < openBraces (before ++ brace :: part))
    ⟨fun stays => ⟨stays.1, fun part isPart => stays.2 part ((List.mem_inits _ _).mpr isPart)⟩,
      fun stays => ⟨stays.1, fun part isPart => stays.2 part ((List.mem_inits _ _).mp isPart)⟩⟩

theorem openBraces_append (first second : List Token) :
    openBraces (first ++ second) =
      (second.map Token.kind).foldl Tape.depthAfter (openBraces first) := by
  rw [openBraces, List.map_append, List.foldl_append, openBraces]

/-! ## Sound statements and blocks -/

/-- A sound turn passes the tokens of its statement and no others. -/
theorem Turn.Made.isProgram {turn : Turn} (made : turn.Made) {stmt : Stmt}
    (isSound : turn.stmt? = some stmt) : IsProgram (turn.tokens.map Token.kind) [stmt] := by
  rw [Turn.stmt?_eq_some_iff] at isSound
  rcases made.cases with ⟨other, isOutcome, isOk⟩ | ⟨_, _, isOutcome, -, -⟩
  · obtain rfl : other = stmt := Except.ok.inj (isOutcome.symm.trans isSound)
    have reads := (Parser.readsAll turn.start.budget).nextStatement turn.start
    obtain ⟨passed, passes, isEnded⟩ := reads.of_ok isOk
    have areTokens : turn.tokens = passed :=
      List.append_cancel_right (made.passes.1.symm.trans passes.ahead)
    rw [areTokens]
    simpa using isEnded.cons .nil (by simp)
  · rw [isSound] at isOutcome
    cases isOutcome

/-- A block that has been read to its end has taken back the brace that opened it. -/
theorem Parser.depth_of_block {budget : Nat} {opening after : Tape} {stmts : Block}
    (isBrace : opening.peek.kind = .symbol .leftBrace)
    (isOk : Parser.block budget opening.take = .ok stmts after) :
    after.depth + 1 = opening.take.depth := by
  have takes : opening.take.Takes after := by
    have takes := Parser.Rule.block.takes budget opening.take
    rwa [Parser.Rule.run, isOk] at takes
  obtain ⟨passed, isPassed, isDepth⟩ := takes.exists_passed
  have reads := (Parser.readsAll budget).block opening.take
  obtain ⟨tokens, passes, inner, areKinds, isProgram⟩ := reads.of_ok isOk
  obtain rfl : passed = tokens := List.append_cancel_right (isPassed.symm.trans passes.ahead)
  have isOpened : opening.take.depth = opening.depth + 1 := by
    rw [Tape.take, isBrace]
    rfl
  rw [isDepth, areKinds, List.foldl_append, isProgram.bracesMatch, isOpened]
  rfl

/-! ## Behind broken statements -/

namespace Tape

theorem depth_skipSemicolon (tape : Tape) : tape.skipSemicolon.depth = tape.depth := by
  rw [skipSemicolon]
  split
  · next isSemicolon =>
      rw [take, isSemicolon]
      rfl
  · rfl

/-- Skipping goes on until no brace is open, or there are no tokens left. -/
theorem depth_recover (tape : Tape) (notEnd : tape.recover.ahead ≠ []) :
    tape.recover.depth = 0 := by
  induction tape using recover.induct with
  | case1 tape isBoundary isBrace =>
      rw [recover_of_boundary isBoundary, if_pos isBrace, depth_skipSemicolon]
      exact depth_of_boundary isBoundary
  | case2 tape isBoundary notBrace =>
      rw [recover_of_boundary isBoundary, if_neg notBrace]
      exact depth_of_boundary isBoundary
  | case3 tape notBoundary atEnd =>
      rw [recover_of_end notBoundary atEnd] at notEnd
      exact absurd atEnd notEnd
  | case4 tape notBoundary notEnd' ih =>
      rw [recover_of_next notBoundary notEnd'] at notEnd ⊢
      exact ih notEnd

end Tape

/-! ## Turns -/

namespace Turn.Made

variable {turn : Turn} (made : turn.Made)

include made

/-- A sound turn leaves the count of braces as it was. -/
theorem depth_of_sound {stmt : Stmt} (isSound : turn.stmt? = some stmt) :
    turn.stop.depth = turn.start.depth := by
  rw [made.passes.2.2]
  exact (made.isProgram isSound).bracesMatch _

/-- From outside of all braces a turn comes to outside of all braces. -/
theorem outside (isOutside : turn.start.depth = 0) (notEnd : turn.stop.ahead ≠ []) :
    turn.stop.depth = 0 := by
  rcases made.cases with ⟨stmt, isSound, -⟩ | ⟨_, stopped, -, isStop, -⟩
  · rw [made.depth_of_sound (Turn.stmt?_eq_some_iff.mpr isSound), isOutside]
  · rw [isStop] at notEnd ⊢
    exact stopped.depth_recover notEnd

end Turn.Made

namespace Tape

/-- Behind these tokens of a tape reading has come to this place, which is outside of all braces
unless it is the end. -/
structure StandsBehind (tape : Tape) (passed : List Token) (place : Tape) : Prop where
  ahead : tape.ahead = passed ++ place.ahead
  count : openBraces passed = place.depth
  outside : place.ahead ≠ [] → place.depth = 0

variable {tape : Tape}

/-- A turn goes on by its tokens. -/
theorem StandsBehind.next {passed : List Token} {turn : Turn} (made : turn.Made)
    (stands : tape.StandsBehind passed turn.start) :
    tape.StandsBehind (passed ++ turn.tokens) turn.stop where
  ahead := by rw [stands.ahead, made.passes.1, List.append_assoc]
  count := by rw [openBraces_append, stands.count, made.passes.2.2]
  outside := made.outside (stands.outside made.nonempty)

theorem standsBehind_of_split (isOutside : tape.depth = 0) {earlier later : List Turn}
    {turn : Turn} (isSplit : tape.turns = earlier ++ turn :: later) :
    turn.Made ∧ tape.StandsBehind (earlier.flatMap Turn.tokens) turn.start := by
  have start : tape.StandsBehind [] tape := ⟨rfl, isOutside.symm, fun _ => isOutside⟩
  exact holds_at_turn (fun _ _ made stands => stands.next made) start isSplit

/-- No token is passed in two turns. -/
theorem eq_of_mem_tokens (distinct : tape.ahead.Nodup) {first second : Turn}
    (isFirst : first ∈ tape.turns) (isSecond : second ∈ tape.turns) {token : Token}
    (inFirst : token ∈ first.tokens) (inSecond : token ∈ second.tokens) : first = second := by
  rw [← flatMap_tokens_turns] at distinct
  let shared (first second : Turn) : Prop :=
    token ∈ first.tokens → token ∈ second.tokens → first = second
  have apart : tape.turns.Pairwise shared :=
    (List.nodup_flatMap.mp distinct).2.imp fun disjoint inFirst inSecond =>
      (disjoint inFirst inSecond).elim
  have symmetric : Std.Symm shared :=
    ⟨fun _ _ isShared inSecond inFirst => (isShared inFirst inSecond).symm⟩
  exact apart.forall_of_forall (fun _ _ _ _ => rfl) isFirst isSecond inFirst inSecond

variable {before inside rest : List Token} {brace : Token}

variable (tape) in
/-- The turn that passes an opening brace passes all that stands inside, and it comes to no
statement if the brace is never closed. -/
theorem exists_turn_of_block (isOutside : tape.depth = 0) (distinct : tape.ahead.Nodup)
    (isAhead : tape.ahead = before ++ brace :: (inside ++ rest))
    (staysOpen : StaysOpen before brace inside) :
    ∃ turn ∈ tape.turns, (∀ token ∈ brace :: inside, token ∈ turn.tokens) ∧
      (StaysOpen before brace (inside ++ rest) → turn.stmt? = none) := by
  have isPassed : brace ∈ tape.turns.flatMap Turn.tokens := by
    rw [flatMap_tokens_turns, isAhead]
    simp
  obtain ⟨turn, isTurn, inTurn⟩ := List.mem_flatMap.mp isPassed
  obtain ⟨earlier, later, isSplit⟩ := List.append_of_mem isTurn
  obtain ⟨front, back, areTokens⟩ := List.append_of_mem inTurn
  obtain ⟨made, stands⟩ := standsBehind_of_split isOutside isSplit
  have behind := stands.next made
  -- the brace stands in one place only, so the tokens around it are the same
  have same : before = earlier.flatMap Turn.tokens ++ front ∧ brace = brace ∧
      inside ++ rest = back ++ turn.stop.ahead := by
    rw [isAhead] at distinct
    have alone := (List.nodup_cons.mp (List.nodup_middle.mp distinct)).1
    rw [List.mem_append, not_or] at alone
    rw [← List.append_cons_inj_of_notMem alone.1 alone.2, ← isAhead, behind.ahead, areTokens]
    simp
  obtain ⟨isBefore, -, isBehind⟩ := same
  have isOpenThere {tokens : List Token} (staysOpen : StaysOpen before brace tokens)
      (isPart : back <+: tokens) : turn.stop.depth ≠ 0 := by
    have isOpen := staysOpen.isOpen back isPart
    rw [isBefore, List.append_assoc, ← areTokens, behind.count] at isOpen
    exact Nat.ne_zero_of_lt isOpen
  refine ⟨turn, isTurn, ?_, fun neverClosed => ?_⟩
  · have insideBack : inside ⊆ back := by
      rcases List.append_eq_append_iff.mp isBehind with ⟨more, rfl, -⟩ | ⟨more, rfl, isStop⟩
      · exact List.subset_append_left inside more
      · cases more with
        | nil => simp
        | cons token more =>
            have isOpen := isOpenThere staysOpen (List.prefix_append back _)
            exact absurd (behind.outside (by simp [isStop])) isOpen
    rw [areTokens]
    intro token isToken
    exact List.mem_append_right front (List.cons_subset_cons brace insideBack isToken)
  · have isOpen := isOpenThere neverClosed (isBehind ▸ List.prefix_append back _)
    rw [Option.eq_none_iff_forall_ne_some]
    intro stmt isSound
    have isOutside := stands.outside made.nonempty
    exact isOpen ((made.depth_of_sound isSound).trans isOutside)

end Tape

/-- Each turn of the loop over statements begins outside of all braces, with the count of braces
moved on to its first token, and a sound one passes the tokens of its statement and ends outside of
all braces. A block that has been read takes back the brace that opened it. What stands inside
a block is passed in the turn that opens it and in no other, so nothing of it is in another
statement; and if the block is never closed, that turn comes to no statement. -/
theorem parse_outside_blocks (source : String) :
    let words := (Cursor.ofText source).words
    let turns := (Tape.ofCursor (.ofText source)).turns
    (parse source).program = turns.filterMap Turn.stmt? ∧
    words = turns.flatMap Turn.tokens ∧
    (∀ earlier turn later, turns = earlier ++ turn :: later →
      let passed := earlier.flatMap Turn.tokens
      (∃ others, turn.tokens = turn.start.peek :: others) ∧
      openBraces passed = 0 ∧
      turn.start.take.depth = openBraces (passed ++ [turn.start.peek]) ∧
      ∀ stmt, turn.stmt? = some stmt →
        IsProgram (turn.tokens.map Token.kind) [stmt] ∧
        openBraces (passed ++ turn.tokens) = 0 ∧ turn.stop.depth = 0) ∧
    (∀ budget (opening : Tape) stmts after, opening.peek.kind = .symbol .leftBrace →
      Parser.block budget opening.take = .ok stmts after →
        after.depth + 1 = opening.take.depth) ∧
    ∀ before brace inside rest, words = before ++ brace :: (inside ++ rest) →
      StaysOpen before brace inside →
        ∃ turn ∈ turns,
          (∀ token ∈ brace :: inside, ∀ other ∈ turns, token ∈ other.tokens ↔ other = turn) ∧
          (StaysOpen before brace (inside ++ rest) → turn.stmt? = none) := by
  intro words turns
  have isParsed := (Tape.ofCursor (.ofText source)).parse_eq_turns
  have isCut := (Tape.ofCursor (.ofText source)).flatMap_tokens_turns
  have distinct : words.Nodup := (List.nodup_append.mp (Cursor.ofText source).nodup_tokens).1
  refine ⟨congrArg Parsed.program isParsed, isCut.symm, ?_, ?_, ?_⟩
  · intro earlier turn later isSplit passed
    obtain ⟨made, stands⟩ := Tape.standsBehind_of_split rfl isSplit
    have isOutside := stands.outside made.nonempty
    refine ⟨made.passes.2.1, stands.count.trans isOutside, ?_, fun stmt isSound => ?_⟩
    · rw [openBraces_append, stands.count]
      rfl
    · have isBehind := (made.depth_of_sound isSound).trans isOutside
      exact ⟨made.isProgram isSound, (stands.next made).count.trans isBehind, isBehind⟩
  · exact fun budget opening stmts after => Parser.depth_of_block
  · intro before brace inside rest isSplit staysOpen
    obtain ⟨turn, isTurn, passes, neverClosed⟩ :=
      (Tape.ofCursor (.ofText source)).exists_turn_of_block rfl distinct isSplit staysOpen
    refine ⟨turn, isTurn, fun token isToken other isOther => ⟨fun inOther => ?_, ?_⟩, neverClosed⟩
    · exact Tape.eq_of_mem_tokens distinct isOther isTurn inOther (passes token isToken)
    · rintro rfl
      exact passes token isToken

/-- Of three statements the first has a broken block, and the last has one that is never closed.
What stands between them is read. -/
theorem parse_outside_blocks_broken :
    let source := "fn() \x7b let x 5; y \x7d; g; fn() \x7b h"
    let turns := (Tape.ofCursor (.ofText source)).turns
    let name : Token := ⟨.ident "y", 16, 17⟩
    let brace : Token := ⟨.symbol .leftBrace, 29, 30⟩
    let opening := Tape.ofCursor (.ofText "\x7b 1 \x7d")
    (∃ broken sound unclosed, turns = [broken, sound, unclosed] ∧
      sound.stmt? = some (.expr (.ident "g")) ∧ openBraces broken.tokens = 0 ∧
        openBraces (broken.tokens ++ sound.tokens) = 0) ∧
    (∃ after, Parser.block 20 opening.take = .ok [.expr (.int 1)] after ∧
      after.depth + 1 = opening.take.depth) ∧
    (∃ turn ∈ turns, ∀ other ∈ turns, name ∈ other.tokens ↔ other = turn) ∧
    ∃ turn ∈ turns, brace ∈ turn.tokens ∧ turn.stmt? = none := by
  obtain ⟨-, -, outside, ofBlock, inBlock⟩ :=
    parse_outside_blocks "fn() \x7b let x 5; y \x7d; g; fn() \x7b h"
  refine ⟨?_, ?_, ?_, ?_⟩
  · have areStmts : (Tape.ofCursor (.ofText "fn() \x7b let x 5; y \x7d; g; fn() \x7b h")).turns.map
        Turn.stmt? = [none, some (.expr (.ident "g")), none] := by cbv
    obtain ⟨broken, sound, unclosed, areTurns⟩ :=
      List.length_eq_three.mp (by simpa using congrArg List.length areStmts)
    rw [areTurns] at areStmts
    obtain ⟨isSound, -⟩ := List.cons.inj (List.cons.inj areStmts).2
    obtain ⟨-, isOutside, -, ofSound⟩ := outside [broken] sound [unclosed] areTurns
    rw [List.flatMap_singleton] at isOutside ofSound
    exact ⟨broken, sound, unclosed, areTurns, isSound, isOutside, (ofSound _ isSound).2.1⟩
  · let after : Tape := ⟨some ⟨.symbol .rightBrace, 4, 5⟩, [], 5, 0⟩
    have isOk : Parser.block 20 (Tape.ofCursor (.ofText "\x7b 1 \x7d")).take =
        .ok [.expr (.int 1)] after := by cbv
    exact ⟨after, isOk, ofBlock _ _ _ _ (by cbv) isOk⟩
  · obtain ⟨turn, isTurn, inTurn, -⟩ := inBlock
      [⟨.keyword .function, 0, 2⟩, ⟨.symbol .leftParen, 2, 3⟩, ⟨.symbol .rightParen, 3, 4⟩]
      ⟨.symbol .leftBrace, 5, 6⟩
      [⟨.keyword .letWord, 7, 10⟩, ⟨.ident "x", 11, 12⟩, ⟨.int "5", 13, 14⟩,
        ⟨.symbol .semicolon, 14, 15⟩, ⟨.ident "y", 16, 17⟩]
      ((Cursor.ofText "fn() \x7b let x 5; y \x7d; g; fn() \x7b h").words.drop 9) (by cbv) (by decide)
    exact ⟨turn, isTurn, inTurn _ (by decide)⟩
  · obtain ⟨turn, isTurn, inTurn, neverClosed⟩ := inBlock
      ((Cursor.ofText "fn() \x7b let x 5; y \x7d; g; fn() \x7b h").words.take 16)
      ⟨.symbol .leftBrace, 29, 30⟩ [⟨.ident "h", 31, 32⟩] [] (by cbv)
      (of_decide_eq_true (by cbv))
    have inThisTurn := (inTurn _ List.mem_cons_self turn isTurn).mpr rfl
    exact ⟨turn, isTurn, inThisTurn, neverClosed (of_decide_eq_true (by cbv))⟩

end Monkey
