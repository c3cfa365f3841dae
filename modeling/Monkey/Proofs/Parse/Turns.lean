/-
# The loop over statements, turn by turn

A tape is read in turns. Each begins where a statement can begin and passes the tokens of that
statement; if the statement is broken, skipping the rest of it belongs to the same turn. The loop
is told here without the count that bounds it: a turn passes a token at least, so the turns come
to an end, and that is the end of the tape. They cut the tokens into as many pieces as there
are turns, and what is read from the tape is what its turns come to.
-/

import Monkey.Proofs.Parse.Places

namespace Monkey

/-- One turn: where it begins, what becomes of the statement, and where the next one begins. -/
structure Turn where
  start : Tape
  outcome : Except Diagnostic Stmt
  stop : Tape

namespace Turn

/-- The statement, if it is sound. -/
def stmt? (turn : Turn) : Option Stmt := turn.outcome.toOption

theorem stmt?_eq_some_iff {turn : Turn} {stmt : Stmt} :
    turn.stmt? = some stmt ↔ turn.outcome = .ok stmt := by
  rw [stmt?]
  cases turn.outcome <;> simp [Except.toOption]

/-- What is wrong with the statement, if it is broken. -/
def diagnostic? (turn : Turn) : Option Diagnostic :=
  match turn.outcome with
  | .ok _ => none
  | .error diagnostic => some diagnostic

/-- The tokens that are passed. -/
def tokens (turn : Turn) : List Token :=
  turn.start.ahead.take (turn.start.ahead.length - turn.stop.ahead.length)

/-- This is the turn that the loop makes where it begins. -/
def Made (turn : Turn) : Prop := turn.start.readStatement = some (turn.outcome, turn.stop)

end Turn

namespace Tape

variable {tape place : Tape} {outcome : Except Diagnostic Stmt}

/-- Taking a token, or the end mark, keeps count of the braces that are passed. -/
theorem exists_passed_take (tape : Tape) :
    ∃ passed, tape.ahead = passed ++ tape.take.ahead ∧
      tape.take.depth = (passed.map Token.kind).foldl depthAfter tape.depth := by
  obtain ⟨last, ahead, finish, depth⟩ := tape
  cases ahead with
  | nil => exact ⟨[], rfl, rfl⟩
  | cons token others => exact ⟨[token], rfl, rfl⟩

theorem Takes.exists_passed (takes : tape.Takes place) :
    ∃ passed, tape.ahead = passed ++ place.ahead ∧
      place.depth = (passed.map Token.kind).foldl depthAfter tape.depth := by
  induction takes with
  | refl => exact ⟨[], rfl, rfl⟩
  | @take tape place _ ih =>
      obtain ⟨first, isFirst, isDepth⟩ := tape.exists_passed_take
      obtain ⟨others, areOthers, isDepthThen⟩ := ih
      refine ⟨first ++ others, ?_, ?_⟩
      · rw [isFirst, areOthers, List.append_assoc]
      · rw [isDepthThen, isDepth, List.map_append, List.foldl_append]

/-- Where no statement can be read, there is nothing to read. -/
theorem readStatement_eq_none_iff : tape.readStatement = none ↔ tape.ahead = [] := by
  constructor
  · intro isNone
    by_contra nonempty
    rcases readStatement_cases nonempty with ⟨_, _, -, -, isRead⟩ | ⟨_, _, -, -, isRead⟩
    · rw [isNone] at isRead
      cases isRead
    · rw [isNone] at isRead
      cases isRead
  · intro atEnd
    rw [readStatement, if_pos atEnd]

end Tape

/-! ## One turn -/

namespace Turn.Made

variable {turn : Turn} (made : turn.Made)

include made

theorem nonempty : turn.start.ahead ≠ [] := by
  intro atEnd
  rw [Made, Tape.readStatement_eq_none_iff.mpr atEnd] at made
  cases made

/-- A turn reads a statement, or it reads a broken one and skips the rest of it. -/
theorem cases :
    (∃ stmt, turn.outcome = .ok stmt ∧
      Parser.statement turn.start.budget turn.start.peek turn.start.take = .ok stmt turn.stop) ∨
    ∃ diagnostic stopped, turn.outcome = .error diagnostic ∧ turn.stop = stopped.recover ∧
      Parser.statement turn.start.budget turn.start.peek turn.start.take =
        .error (.rejected diagnostic) stopped := by
  rcases Tape.readStatement_cases made.nonempty with
    ⟨stmt, after, isOk, -, isRead⟩ | ⟨diagnostic, stopped, isError, -, isRead⟩
  · obtain ⟨isOutcome, rfl⟩ := Prod.mk.inj (Option.some.inj (made.symm.trans isRead))
    exact Or.inl ⟨stmt, isOutcome, isOk⟩
  · obtain ⟨isOutcome, isStop⟩ := Prod.mk.inj (Option.some.inj (made.symm.trans isRead))
    exact Or.inr ⟨diagnostic, stopped, isOutcome, isStop, isError⟩

/-- The first token is taken, whatever it is, and tokens are all that the turn passes. -/
theorem takes : turn.start.take.Takes turn.stop := by
  have takes := (Parser.Rule.statement turn.start.peek).takes turn.start.budget turn.start.take
  rw [Parser.Rule.run] at takes
  rcases made.cases with ⟨stmt, -, isOk⟩ | ⟨diagnostic, stopped, -, isStop, isError⟩
  · rw [isOk] at takes
    exact takes
  · rw [isError] at takes
    rw [isStop]
    exact Tape.Takes.trans takes stopped.takes_recover

/-- The tokens that are passed begin with the next one, and the others are still ahead then. -/
theorem passes : turn.start.ahead = turn.tokens ++ turn.stop.ahead ∧
    (∃ others, turn.tokens = turn.start.peek :: others) ∧
    turn.stop.depth = (turn.tokens.map Token.kind).foldl Tape.depthAfter turn.start.depth := by
  obtain ⟨token, others, isAhead⟩ := List.exists_cons_of_ne_nil made.nonempty
  have isPeek : turn.start.peek = token := by rw [Tape.peek, isAhead]; rfl
  have isRest : turn.start.take.ahead = others := by rw [Tape.take, isAhead]; rfl
  obtain ⟨passed, isPassed, isDepth⟩ := made.takes.exists_passed
  have isWhole : turn.start.ahead = (turn.start.peek :: passed) ++ turn.stop.ahead := by
    rw [isAhead, isPeek, ← isRest, isPassed, List.cons_append]
  have areTokens : turn.tokens = turn.start.peek :: passed := by
    rw [tokens, isWhole, List.length_append, Nat.add_sub_cancel, List.take_left]
  rw [areTokens]
  exact ⟨isWhole, ⟨passed, rfl⟩, isDepth⟩

theorem tokens_ne_nil : turn.tokens ≠ [] := by
  obtain ⟨-, ⟨others, areTokens⟩, -⟩ := made.passes
  rw [areTokens]
  exact List.cons_ne_nil _ _

theorem length_stop_lt : turn.stop.ahead.length < turn.start.ahead.length := by
  rw [made.passes.1, List.length_append]
  exact Nat.lt_add_of_pos_left (List.length_pos_iff.mpr made.tokens_ne_nil)

end Turn.Made

/-! ## All turns -/

namespace Tape

variable {tape after : Tape} {outcome : Except Diagnostic Stmt}

/-- The turns that are made up to the end of the tape. -/
def turns (tape : Tape) : List Turn :=
  match _ : tape.readStatement with
  | none => []
  | some (outcome, after) => ⟨tape, outcome, after⟩ :: after.turns
termination_by tape.ahead.length
decreasing_by
  have made : (⟨tape, outcome, after⟩ : Turn).Made := by assumption
  exact made.length_stop_lt

theorem turns_of_end (isNone : tape.readStatement = none) : tape.turns = [] := by
  rw [turns]
  split
  · rfl
  · next isRead =>
      rw [isNone] at isRead
      cases isRead

theorem turns_of_read (isRead : tape.readStatement = some (outcome, after)) :
    tape.turns = ⟨tape, outcome, after⟩ :: after.turns := by
  rw [turns]
  split
  · next isNone =>
      rw [isNone] at isRead
      cases isRead
  · next isFirst =>
      rw [isRead] at isFirst
      cases isFirst
      rfl

/-- The turns pass every token once. -/
theorem flatMap_tokens_turns (tape : Tape) : tape.turns.flatMap Turn.tokens = tape.ahead := by
  induction tape using turns.induct with
  | case1 tape isNone =>
      rw [turns_of_end isNone, readStatement_eq_none_iff.mp isNone]
      rfl
  | case2 tape outcome after isRead ih =>
      have made : (⟨tape, outcome, after⟩ : Turn).Made := isRead
      rw [turns_of_read isRead, List.flatMap_cons, ih]
      exact made.passes.1.symm

/-- What is read is what the turns come to. -/
theorem parse_eq_turns (tape : Tape) :
    tape.parse = ⟨tape.turns.filterMap Turn.stmt?, tape.turns.filterMap Turn.diagnostic?⟩ := by
  induction tape using turns.induct with
  | case1 tape isNone =>
      rw [turns_of_end isNone, parse_of_end (readStatement_eq_none_iff.mp isNone)]
      rfl
  | case2 tape outcome after isRead ih =>
      have made : (⟨tape, outcome, after⟩ : Turn).Made := isRead
      rw [turns_of_read isRead]
      rcases made.cases with
        ⟨stmt, isOutcome, isOk⟩ | ⟨diagnostic, stopped, isOutcome, isStop, isError⟩
      · obtain rfl : outcome = .ok stmt := isOutcome
        rw [parse_of_ok made.nonempty isOk, ih]
        rfl
      · obtain rfl : outcome = .error diagnostic := isOutcome
        obtain rfl : after = stopped.recover := isStop
        rw [parse_of_error made.nonempty isError, ih]
        rfl

/-- What each turn keeps, along with the tokens that are passed, holds where any turn begins. -/
theorem holds_at_turn {Holds : List Token → Tape → Prop}
    (keeps : ∀ passed (turn : Turn), turn.Made → Holds passed turn.start →
      Holds (passed ++ turn.tokens) turn.stop)
    {passed : List Token} (holds : Holds passed tape) {earlier later : List Turn} {turn : Turn}
    (isSplit : tape.turns = earlier ++ turn :: later) :
    turn.Made ∧ Holds (passed ++ earlier.flatMap Turn.tokens) turn.start := by
  induction tape using turns.induct generalizing passed earlier with
  | case1 tape isNone =>
      rw [turns_of_end isNone] at isSplit
      simp at isSplit
  | case2 tape outcome after isRead ih =>
      rw [turns_of_read isRead] at isSplit
      cases earlier with
      | nil =>
          obtain ⟨rfl, -⟩ := List.cons.inj isSplit
          rw [List.flatMap_nil, List.append_nil]
          exact ⟨isRead, holds⟩
      | cons first earlier =>
          obtain ⟨rfl, isLater⟩ := List.cons.inj isSplit
          have made : (⟨tape, outcome, after⟩ : Turn).Made := isRead
          rw [List.flatMap_cons, ← List.append_assoc]
          exact ih (keeps passed _ made holds) isLater

/-- Any of the turns is made as it says, and begins with no more tokens ahead than the first. -/
theorem made_of_mem {turn : Turn} (isTurn : turn ∈ tape.turns) :
    turn.Made ∧ turn.start.ahead.length ≤ tape.ahead.length := by
  induction tape using turns.induct with
  | case1 tape isNone =>
      rw [turns_of_end isNone] at isTurn
      cases isTurn
  | case2 tape outcome after isRead ih =>
      have first : (⟨tape, outcome, after⟩ : Turn).Made := isRead
      rw [turns_of_read isRead, List.mem_cons] at isTurn
      rcases isTurn with rfl | isLater
      · exact ⟨first, Nat.le_refl _⟩
      · obtain ⟨made, few⟩ := ih isLater
        exact ⟨made, Nat.le_trans few (Nat.le_of_lt first.length_stop_lt)⟩

/-- There are no more turns than tokens. -/
theorem length_turns_le (tape : Tape) : tape.turns.length ≤ tape.ahead.length := by
  rw [← flatMap_tokens_turns tape, List.length_flatMap, ← List.length_map]
  apply List.length_le_sum_of_one_le
  intro passed isPassed
  obtain ⟨turn, isTurn, rfl⟩ := List.mem_map.mp isPassed
  exact List.length_pos_iff.mpr (made_of_mem isTurn).1.tokens_ne_nil

/-- Each turn comes to a statement or to a diagnostic. -/
theorem length_filterMap_turns (turns : List Turn) :
    (turns.filterMap Turn.stmt?).length + (turns.filterMap Turn.diagnostic?).length =
      turns.length := by
  induction turns with
  | nil => rfl
  | cons turn turns ih =>
      obtain ⟨start, outcome, stop⟩ := turn
      rw [List.length_cons, ← ih]
      cases outcome with
      | ok stmt => exact Nat.add_right_comm _ 1 _
      | error diagnostic => exact (Nat.add_assoc _ _ 1).symm

end Tape

end Monkey
