/-
# The budget lasts

Every rule passes its budget on with one unit less, and no more than a few rules are
entered from one another before a token is taken. The budget that a tape is given is not
less than the rank of the rule that reads its next statement. So reading one statement
always ends with a statement or with a diagnostic, a larger budget changes nothing, and
reading a tape goes from statement to statement up to its end.
-/

import Monkey.Proofs.Parse.Nesting

namespace Monkey

namespace Parser

theorem rank_statement_le (tape : Tape) :
    (Rule.statement tape.peek).rank tape.take ≤ tape.budget := by
  have cheap := cost_take_le tape
  rw [Rule.rank, Tape.budget]
  omega

/-- With the budget that a tape is given, its next statement is read or rejected. -/
theorem statement_ne_exhausted (tape stopped : Tape) :
    statement tape.budget tape.peek tape.take ≠ .error .exhausted stopped :=
  (Rule.statement tape.peek).run_ne_exhausted (rank_statement_le tape)

/-- With any larger budget it is read or rejected alike. -/
theorem statement_eq_of_le {tape : Tape} {budget : Nat} (enough : tape.budget ≤ budget) :
    statement budget tape.peek tape.take = statement tape.budget tape.peek tape.take :=
  (Rule.statement tape.peek).run_eq (rank_statement_le tape) enough

/-- A budget that was enough for a statement has the outcome of every larger one, and of the
one that the tape is given. -/
theorem statement_of_lasted {tape : Tape} {budget : Nat}
    {reached : EStateM.Result Stop Tape Stmt}
    (isReached : statement budget tape.peek tape.take = reached)
    (lasted : ∀ stopped, reached ≠ .error .exhausted stopped) :
    statement tape.budget tape.peek tape.take = reached := by
  subst isReached
  rcases Nat.le_total tape.budget budget with enough | less
  · exact (statement_eq_of_le enough).symm
  · exact ((Rule.statement tape.peek).mirrors less tape.take).eq lasted

end Parser

namespace Tape

/-- Reading a statement where there are tokens ends in one of two ways, with fewer of them
left. -/
theorem readStatement_cases {tape : Tape} (nonempty : tape.ahead ≠ []) :
    (∃ stmt after, Parser.statement tape.budget tape.peek tape.take = .ok stmt after ∧
      after.ahead.length < tape.ahead.length ∧
        tape.readStatement = some (.ok stmt, after)) ∨
    ∃ diagnostic stopped,
      Parser.statement tape.budget tape.peek tape.take = .error (.rejected diagnostic) stopped ∧
        stopped.recover.ahead.length < tape.ahead.length ∧
          tape.readStatement = some (.error diagnostic, stopped.recover) := by
  have takes := (Parser.Rule.statement tape.peek).takes tape.budget tape.take
  have fewer : tape.take.ahead.length < tape.ahead.length := by
    rw [Parser.length_take]
    exact Nat.sub_one_lt_of_lt (List.length_pos_iff.mpr nonempty)
  rw [readStatement, if_neg nonempty]
  cases reached : Parser.statement tape.budget tape.peek tape.take with
  | ok stmt after =>
      rw [Parser.Rule.run, reached] at takes
      exact Or.inl ⟨stmt, after, rfl, Nat.lt_of_le_of_lt takes.length_le fewer, rfl⟩
  | error stop stopped =>
      rw [Parser.Rule.run, reached] at takes
      cases stop with
      | rejected diagnostic =>
          have left := (takes.trans stopped.takes_recover).length_le
          exact Or.inr ⟨diagnostic, stopped, rfl, Nat.lt_of_le_of_lt left fewer, rfl⟩
      | exhausted => exact absurd reached (Parser.statement_ne_exhausted tape stopped)

/-- There are no more statements than tokens, so it makes no difference how many more could
be read. -/
theorem parseUpTo_eq_parse {tape : Tape} {count : Nat} (enough : tape.ahead.length ≤ count) :
    tape.parseUpTo count = tape.parse := by
  have agree (count more : Nat) (tape : Tape) (enough : tape.ahead.length ≤ count)
      (larger : count ≤ more) : tape.parseUpTo count = tape.parseUpTo more := by
    induction count generalizing more tape with
    | zero =>
        have atEnd := List.eq_nil_of_length_eq_zero (Nat.le_zero.mp enough)
        cases more with
        | zero => rfl
        | succ more => rw [parseUpTo, parseUpTo, readStatement, if_pos atEnd]
    | succ count ih =>
        obtain ⟨more, rfl⟩ := Nat.exists_eq_add_one_of_ne_zero (Nat.ne_zero_of_lt larger)
        have larger := Nat.le_of_succ_le_succ larger
        rw [parseUpTo, parseUpTo]
        by_cases atEnd : tape.ahead = []
        · rw [readStatement, if_pos atEnd]
        · rcases readStatement_cases atEnd with
            ⟨stmt, after, -, fewer, isRead⟩ | ⟨diagnostic, stopped, -, fewer, isRead⟩
          · rw [isRead]
            exact congrArg (Parsed.addStatement stmt) (ih more after (by omega) larger)
          · rw [isRead]
            exact congrArg (Parsed.addDiagnostic diagnostic) (ih more _ (by omega) larger)
  exact (agree _ count tape (Nat.le_refl _) enough).symm

theorem parse_of_end {tape : Tape} (atEnd : tape.ahead = []) : tape.parse = ⟨[], []⟩ := by
  rw [parse, atEnd]
  rfl

/-- Where there are tokens, a statement or a diagnostic comes first, and the rest is read from
behind it. -/
theorem parse_cases {tape : Tape} (nonempty : tape.ahead ≠ []) :
    (∃ stmt after, Parser.statement tape.budget tape.peek tape.take = .ok stmt after ∧
      after.ahead.length < tape.ahead.length ∧ tape.parse = after.parse.addStatement stmt) ∨
    ∃ diagnostic stopped,
      Parser.statement tape.budget tape.peek tape.take = .error (.rejected diagnostic) stopped ∧
        stopped.recover.ahead.length < tape.ahead.length ∧
          tape.parse = stopped.recover.parse.addDiagnostic diagnostic := by
  rw [← parseUpTo_eq_parse (Nat.le_succ _), parseUpTo]
  rcases readStatement_cases nonempty with
    ⟨stmt, after, isOk, fewer, isRead⟩ | ⟨diagnostic, stopped, isError, fewer, isRead⟩
  · refine Or.inl ⟨stmt, after, isOk, fewer, ?_⟩
    rw [isRead, ← parseUpTo_eq_parse (Nat.le_of_lt fewer)]
  · refine Or.inr ⟨diagnostic, stopped, isError, fewer, ?_⟩
    rw [isRead, ← parseUpTo_eq_parse (Nat.le_of_lt fewer)]

/-- Reading is an induction over what is read: from the end of a tape, over sound statements, and
over broken ones with what is skipped behind them. -/
@[elab_as_elim]
theorem parse_induction {motive : Tape → Prop}
    (atEnd : ∀ tape, tape.ahead = [] → motive tape)
    (sound : ∀ tape stmt after, tape.ahead ≠ [] →
      Parser.statement tape.budget tape.peek tape.take = .ok stmt after →
      tape.parse = after.parse.addStatement stmt → motive after → motive tape)
    (broken : ∀ tape diagnostic stopped, tape.ahead ≠ [] →
      Parser.statement tape.budget tape.peek tape.take = .error (.rejected diagnostic) stopped →
      tape.parse = stopped.recover.parse.addDiagnostic diagnostic → motive stopped.recover →
      motive tape)
    (tape : Tape) : motive tape := by
  induction isLength : tape.ahead.length using Nat.strongRecOn generalizing tape with
  | ind length ih =>
      by_cases isEnd : tape.ahead = []
      · exact atEnd tape isEnd
      · rcases parse_cases isEnd with
          ⟨stmt, after, isOk, fewer, isParsed⟩ | ⟨diagnostic, stopped, isError, fewer, isParsed⟩
        · exact sound tape stmt after isEnd isOk isParsed (ih _ (isLength ▸ fewer) after rfl)
        · have others := ih _ (isLength ▸ fewer) stopped.recover rfl
          exact broken tape diagnostic stopped isEnd isError isParsed others

theorem parse_of_ok {tape after : Tape} {stmt : Stmt} (nonempty : tape.ahead ≠ [])
    (isOk : Parser.statement tape.budget tape.peek tape.take = .ok stmt after) :
    tape.parse = after.parse.addStatement stmt := by
  rcases parse_cases nonempty with ⟨_, _, isFirst, -, isParsed⟩ | ⟨_, _, isError, -, -⟩
  · rw [isOk] at isFirst
    cases isFirst
    exact isParsed
  · rw [isOk] at isError
    cases isError

theorem parse_of_error {tape stopped : Tape} {diagnostic : Diagnostic}
    (nonempty : tape.ahead ≠ [])
    (isError : Parser.statement tape.budget tape.peek tape.take =
      .error (.rejected diagnostic) stopped) :
    tape.parse = stopped.recover.parse.addDiagnostic diagnostic := by
  rcases parse_cases nonempty with ⟨_, _, isOk, -, -⟩ | ⟨_, _, isFirst, -, isParsed⟩
  · rw [isError] at isOk
    cases isOk
  · rw [isError] at isFirst
    cases isFirst
    exact isParsed

end Tape

end Monkey
