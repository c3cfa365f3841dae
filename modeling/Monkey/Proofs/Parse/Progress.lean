/-
# Reading comes to its end

The turns of the loop over statements come to an end because each of them passes a token, and a
turn comes to an end because rules are nested no deeper than their ranks. Both are put together
here, for every source: how many turns there are, how deep rules are nested in each of them, and
that the budget does not show. What is left is skipping the rest of a broken statement, which only
takes tokens.
-/

import Monkey.Proofs.Parse.Turns

namespace Monkey

namespace Tape

theorem exists_iterate_skipSemicolon (tape : Tape) :
    ∃ count, tape.skipSemicolon = take^[count] tape ∧
      count + tape.skipSemicolon.ahead.length = tape.ahead.length := by
  rw [skipSemicolon]
  split
  · next isSemicolon =>
      have notEnd : tape.peek.kind ≠ .eof := by simp [isSemicolon]
      refine ⟨1, rfl, ?_⟩
      rw [ahead_eq_cons notEnd, List.length_cons, Nat.add_comm]
  · exact ⟨0, rfl, Nat.zero_add _⟩

/-- Skipping takes tokens one by one, and never the end mark. -/
theorem exists_iterate_recover (tape : Tape) :
    ∃ count, tape.recover = take^[count] tape ∧
      count + tape.recover.ahead.length = tape.ahead.length := by
  induction tape using recover.induct with
  | case1 tape isBoundary isBrace =>
      rw [recover_of_boundary isBoundary, if_pos isBrace]
      exact tape.exists_iterate_skipSemicolon
  | case2 tape isBoundary notBrace =>
      rw [recover_of_boundary isBoundary, if_neg notBrace]
      exact ⟨0, rfl, Nat.zero_add _⟩
  | case3 tape notBoundary atEnd =>
      rw [recover_of_end notBoundary atEnd]
      exact ⟨0, rfl, Nat.zero_add _⟩
  | case4 tape notBoundary notEnd ih =>
      obtain ⟨count, isTaken, isCount⟩ := ih
      have nonempty := List.length_pos_iff.mpr notEnd
      have taken := Parser.length_take tape
      rw [recover_of_next notBoundary notEnd]
      refine ⟨count + 1, ?_, by omega⟩
      rw [isTaken, Function.iterate_succ_apply]

end Tape

/-- Every source is read to its end, in turns that pass a token at least, so there are no more
statements and diagnostics than tokens. Within a turn the levels of rules, those of every loop
included, are bounded by the number of tokens. Any rule, at any place, comes to the same end with
every budget that is large enough for its levels, and levels are all that can spend a budget.
Skipping the rest of a broken statement takes the tokens that it passes and nothing more. -/
theorem parse_ends_and_advances (source : String) :
    let words := (Cursor.ofText source).words
    let turns := (Tape.ofCursor (.ofText source)).turns
    parse source = ⟨turns.filterMap Turn.stmt?, turns.filterMap Turn.diagnostic?⟩ ∧
    words = turns.flatMap Turn.tokens ∧ (∀ turn ∈ turns, turn.Made ∧ turn.tokens ≠ []) ∧
    (parse source).program.length + (parse source).diagnostics.length ≤ words.length ∧
    (∀ turn ∈ turns, ∀ depth last stop,
      Parser.Nested depth (.statement turn.start.peek) turn.start.take last stop →
        depth ≤ 4 * words.length + 3) ∧
    (∀ (rule : Parser.Rule) (place : Tape),
      (∃ ended, (∀ stopped, ended ≠ .error .exhausted stopped) ∧
        ∀ budget, 4 * place.ahead.length + 7 ≤ budget → rule.run budget place = ended) ∧
      (∀ depth last stop, Parser.Nested depth rule place last stop →
        depth ≤ 4 * place.ahead.length + 7) ∧
      ∀ budget stopped, rule.run budget place = .error .exhausted stopped →
        ∃ depth last stop, budget ≤ depth ∧ Parser.Nested depth rule place last stop) ∧
    ∀ place : Tape, ∃ count, place.recover = Tape.take^[count] place ∧
      count + place.recover.ahead.length = place.ahead.length := by
  intro words turns
  have isParsed : parse source = ⟨turns.filterMap Turn.stmt?, turns.filterMap Turn.diagnostic?⟩ :=
    Tape.parse_eq_turns _
  have isCut : turns.flatMap Turn.tokens = words := Tape.flatMap_tokens_turns _
  refine ⟨isParsed, isCut.symm, ?_, ?_, ?_, ?_, Tape.exists_iterate_recover⟩
  · intro turn isTurn
    have made := (Tape.made_of_mem isTurn).1
    exact ⟨made, made.tokens_ne_nil⟩
  · rw [isParsed]
    exact Nat.le_trans (Nat.le_of_eq (Tape.length_filterMap_turns turns)) (Tape.length_turns_le _)
  · intro turn isTurn depth last stop nested
    have few : turn.start.ahead.length ≤ words.length := (Tape.made_of_mem isTurn).2
    have isCost := Parser.cost_take_le turn.start
    have isBound := nested.add_rank_le
    simp only [Parser.Rule.rank] at isBound
    omega
  · intro rule place
    have isRank := rule.rank_le place
    refine ⟨⟨rule.run (4 * place.ahead.length + 7) place, ?_, ?_⟩, ?_, ?_⟩
    · exact fun stopped => rule.run_ne_exhausted isRank
    · exact fun budget enough => rule.run_eq isRank enough
    · intro depth last stop nested
      exact Nat.le_trans (Nat.le_of_add_right_le nested.add_rank_le) isRank
    · exact fun budget stopped isSpent => Parser.explained budget rule place stopped isSpent

/-- A sign and a parenthesis with nothing behind them. The end mark is asked for an operand six
levels below the statement, and a budget of six units is spent just there. -/
theorem parse_ends_and_advances_truncated :
    let start := Tape.ofCursor (.ofText "!(")
    let endMark : Token := ⟨.eof, 2, 2⟩
    (∃ turn, start.turns = [turn] ∧ turn.Made ∧ turn.tokens ≠ []) ∧
    Parser.Nested 6 (.statement start.peek) start.take (.operand endMark) start.take.take.take ∧
    6 ≤ 4 * start.ahead.length + 3 ∧ 6 ≤ 4 * start.take.ahead.length + 7 ∧
    (∃ depth last stop, 6 ≤ depth ∧
      Parser.Nested depth (.statement start.peek) start.take last stop) ∧
    ∀ budget, 11 ≤ budget → Parser.statement budget start.peek start.take =
      .error (.rejected (.noOperand endMark)) start.take.take.take := by
  intro start endMark
  obtain ⟨-, -, advances, -, levels, rules, -⟩ := parse_ends_and_advances "!("
  obtain ⟨⟨ended, -, isEnded⟩, isBound, isDeep⟩ := rules (.statement start.peek) start.take
  have areStarts : (Tape.ofCursor (.ofText "!(")).turns.map Turn.start =
      [Tape.ofCursor (.ofText "!(")] := by cbv
  obtain ⟨turn, areTurns, isStart⟩ := List.map_eq_singleton_iff.mp areStarts
  have isTurn : turn ∈ start.turns := by rw [areTurns]; exact List.mem_singleton_self turn
  have nested : Parser.Nested 6 (.statement start.peek) start.take (.operand endMark)
      start.take.take.take := by
    have isBang : start.peek.kind = .symbol .bang := by cbv
    have isParen : start.take.peek.kind = .symbol .leftParen := by cbv
    have isEnd : start.take.take.peek = endMark := by cbv
    apply Parser.Nested.enter (.value (by simp [isBang]) (by simp [isBang]))
    apply Parser.Nested.enter .firstOperand
    apply Parser.Nested.enter (.prefixed (congrArg Kind.start isBang))
    apply Parser.Nested.enter .firstOperand
    apply Parser.Nested.enter (.grouped (congrArg Kind.start isParen))
    apply Parser.Nested.enter .firstOperand
    rw [isEnd]
    exact .here
  have isSpent : Parser.statement 6 start.peek start.take =
      .error .exhausted start.take.take.take := by cbv
  have isRejected : Parser.statement 11 start.peek start.take =
      .error (.rejected (.noOperand endMark)) start.take.take.take := by cbv
  refine ⟨⟨turn, areTurns, advances turn isTurn⟩, nested, ?_, isBound 6 _ _ nested,
    isDeep 6 _ isSpent, fun budget enough => ?_⟩
  · apply levels turn isTurn 6 (.operand endMark) start.take.take.take
    rw [isStart]
    exact nested
  · have few : 4 * start.take.ahead.length + 7 ≤ 11 := by cbv
    exact ((isEnded budget (Nat.le_trans few enough)).trans (isEnded 11 few).symm).trans isRejected

end Monkey
