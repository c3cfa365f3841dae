/-
# Where the sign of a binding is missing

Only a binding takes the sign of equality, and it asks for it right behind its name. So if
reading has passed such a sign, it stops at that very place when the sign is left out: what
stands behind the name is rejected, whatever it is, and it has not been taken yet.
-/

import Monkey.Proofs.Parse.Lookahead

namespace Monkey

namespace Tape

/-- The place behind these tokens, with others ahead. -/
def past (tape : Tape) (passed ahead : List Token) : Tape where
  last := passed.getLast?.or tape.last
  ahead := ahead
  finish := tape.finish
  depth := (passed.map Token.kind).foldl depthAfter tape.depth

theorem past_past (tape : Tape) (passed ahead more others : List Token) :
    (tape.past passed ahead).past more others = tape.past (passed ++ more) others := by
  rw [past, past, past, List.getLast?_append, Option.or_assoc, List.map_append, List.foldl_append]

end Tape

namespace Parser

variable {α β : Type} {tape : Tape}

/-- Behind these tokens, the last of which is a name, the rule asks for a sign of equality. -/
structure Asks (rule : Parser α) (tape : Tape) (front : List Token) : Prop where
  named : ∃ before bound name, front = before ++ [bound] ∧ bound.kind = .ident name
  asks : ∀ more, (tape.past front more).peek.kind ≠ .symbol .assign →
    rule (tape.facing (front ++ more)) =
      .error (.rejected (.unexpected (.symbol .assign) (tape.past front more).peek))
        (tape.past front more)

namespace Asks

variable {rule : Parser α} {front : List Token} (isAsked : Asks rule tape front)

include isAsked

theorem ne_nil : front ≠ [] := by
  obtain ⟨before, bound, name, rfl, -⟩ := isAsked.named
  exact List.append_ne_nil_of_right_ne_nil before (List.cons_ne_nil bound [])

theorem head? (more others : List Token) : (front ++ more).head? = (front ++ others).head? := by
  cases front with
  | nil => exact absurd rfl isAsked.ne_nil
  | cons token tokens => rfl

end Asks

/-- What a rule asks for behind another one, which does not see that far. -/
theorem Asks.bind {first : Parser α} {second : α → Parser β} {result : α} {middle : Tape}
    {passed rest others : List Token}
    (alike : ∀ more, more.head? = middle.ahead.head? →
      first (tape.facing (passed ++ more)) = .ok result (middle.facing more))
    (isMiddle : middle = tape.past passed middle.ahead) (isAhead : middle.ahead = rest ++ others)
    (isAsked : Asks (second result) middle rest) :
    Asks (first >>= second) tape (passed ++ rest) := by
  obtain ⟨before, bound, name, isBound, isName⟩ := isAsked.named
  refine ⟨⟨passed ++ before, bound, name, by rw [isBound, List.append_assoc], isName⟩, ?_⟩
  intro more notSign
  have sameHead : (rest ++ more).head? = middle.ahead.head? := by
    rw [isAhead]
    exact isAsked.head? _ _
  have samePlace : middle.past rest more = tape.past (passed ++ rest) more := by
    rw [isMiddle, Tape.past_past]
  rw [← samePlace] at notSign ⊢
  rw [List.append_assoc, bind_of_ok (alike _ sameHead)]
  exact isAsked.asks more notSign

/-- If the rule succeeds, it has asked for every sign of equality that it has passed. -/
def Insists (rule : Parser α) (tape : Tape) : Prop :=
  ∀ result after, rule tape = .ok result after →
    ∃ passed, tape.ahead = passed ++ after.ahead ∧ after = tape.past passed after.ahead ∧
      ∀ front sign back, passed = front ++ sign :: back → sign.kind = .symbol .assign →
        Asks rule tape front

namespace Insists

theorem bind {first : Parser α} {second : α → Parser β} (sees : Sees first tape)
    (isFirst : Insists first tape)
    (isSecond : ∀ result middle, first tape = .ok result middle →
      Insists (second result) middle) : Insists (first >>= second) tape := by
  intro answer after isOk
  rw [Sees] at sees
  cases reached : first tape with
  | error stop stopped =>
      rw [bind_of_error reached] at isOk
      cases isOk
  | ok result middle =>
      rw [bind_of_ok reached] at isOk
      rw [reached] at sees
      obtain ⟨seen, passes, alike⟩ := sees
      obtain ⟨passed, isAhead, isMiddle, asked⟩ := isFirst result middle reached
      obtain ⟨others, isAheadThen, isAfter, askedThen⟩ :=
        isSecond result middle reached answer after isOk
      obtain rfl : seen = passed := List.append_cancel_right (passes.ahead.symm.trans isAhead)
      refine ⟨seen ++ others, ?_, ?_, ?_⟩
      · rw [isAhead, isAheadThen, List.append_assoc]
      · rw [← Tape.past_past, ← isMiddle]
        exact isAfter
      intro front sign back isSplit isSign
      rcases List.append_eq_append_iff.mp isSplit with ⟨rest, rfl, isRest⟩ | ⟨rest, rfl, isRest⟩
      · have isAsked := askedThen rest sign back isRest isSign
        rw [isRest, List.append_assoc] at isAheadThen
        exact .bind alike isMiddle isAheadThen isAsked
      · cases rest with
        | nil =>
            have isAsked := askedThen [] sign back isRest.symm isSign
            exact absurd rfl isAsked.ne_nil
        | cons token tokens =>
            obtain ⟨rfl, -⟩ := List.cons.inj isRest
            have isAsked := asked front sign tokens rfl isSign
            refine ⟨isAsked.named, fun more notSign => ?_⟩
            exact bind_of_error (isAsked.asks more notSign) second

/-- A rule that passes nothing has no sign to ask for. -/
theorem value (result : α) : Insists (pure result) tape := by
  rintro _ _ ⟨⟩
  refine ⟨[], rfl, rfl, fun front sign back isSplit => ?_⟩
  exact absurd isSplit.symm (List.append_ne_nil_of_right_ne_nil front (List.cons_ne_nil sign back))

theorem never {rule : Parser α} (fails : ∀ result after, rule tape ≠ .ok result after) :
    Insists rule tape :=
  fun result after isOk => absurd isOk (fails result after)

theorem reject (diagnostic : Diagnostic) : Insists (reject diagnostic : Parser α) tape :=
  never (by rintro _ _ ⟨⟩)

theorem exhausted : Insists (exhausted : Parser α) tape :=
  never (by rintro _ _ ⟨⟩)

/-- Rules that do the same wherever this token comes next ask for the same signs here. -/
theorem congr {rule other : Parser α}
    (same : ∀ image : Tape, image.peek = tape.peek → rule image = other image)
    (insists : Insists other tape) : Insists rule tape := by
  intro result after isOk
  rw [same tape rfl] at isOk
  obtain ⟨passed, isAhead, isAfter, asked⟩ := insists result after isOk
  refine ⟨passed, isAhead, isAfter, fun front sign back isSplit isSign => ?_⟩
  have isAsked := asked front sign back isSplit isSign
  refine ⟨isAsked.named, fun more notSign => ?_⟩
  have samePeek : (tape.facing (front ++ more)).peek = tape.peek := by
    apply Tape.peek_facing
    rw [isAhead, isSplit, List.append_assoc]
    exact isAsked.head? _ _
  rw [same _ samePeek]
  exact isAsked.asks more notSign

/-- No other token than the sign itself is asked for as one. -/
theorem taking (notEnd : tape.peek.kind ≠ .eof) (notSign : tape.peek.kind ≠ .symbol .assign) :
    Insists take tape := by
  rintro _ _ ⟨⟩
  refine ⟨[tape.peek], Tape.ahead_eq_cons notEnd, rfl, fun front sign back isSplit isSign => ?_⟩
  have isMember : sign ∈ [tape.peek] := isSplit ▸ List.mem_append_right front (.head back)
  rw [List.mem_singleton.mp isMember] at isSign
  exact absurd isSign notSign

theorem takeBind {second : Token → Parser β} (notEnd : tape.peek.kind ≠ .eof)
    (notSign : tape.peek.kind ≠ .symbol .assign)
    (isSecond : Insists (second tape.peek) tape.take) : Insists (take >>= second) tape := by
  apply bind .taking (taking notEnd notSign)
  rintro _ _ ⟨⟩
  exact isSecond

/-- A rule that fails on the next token. -/
theorem takeReject {second : Token → Parser β} {diagnostic : Diagnostic}
    (isReject : second tape.peek = Parser.reject diagnostic) :
    Insists (take >>= second) tape := by
  apply never
  intro result after isOk
  rw [take_bind, isReject] at isOk
  cases isOk

/-- The name of a binding, and the sign behind it. Only here a sign is taken. -/
theorem boundName :
    Insists (do let bound ← Parser.name; Parser.symbol .assign; pure bound) tape := by
  intro result after isOk
  cases isNamed : Parser.name tape with
  | error stop stopped =>
      rw [bind_of_error isNamed] at isOk
      cases isOk
  | ok bound middle =>
      obtain ⟨isName, rfl⟩ := ident_of_name isNamed
      rw [bind_of_ok isNamed] at isOk
      by_cases isNext : tape.take.peek.kind = .symbol .assign
      · rw [bind_of_ok ((symbol_apply .assign _).trans (if_pos isNext))] at isOk
        cases isOk
        have twoAhead : tape.ahead = [tape.peek, tape.take.peek] ++ tape.take.take.ahead := by
          rw [Tape.ahead_eq_cons (show tape.peek.kind ≠ .eof by simp [isName]),
            Tape.ahead_eq_cons (show tape.take.peek.kind ≠ .eof by simp [isNext])]
          rfl
        refine ⟨_, twoAhead, rfl, fun front sign back isSplit isSign => ?_⟩
        cases front with
        | nil =>
            obtain ⟨rfl, -⟩ := List.cons.inj isSplit
            rw [isName] at isSign
            cases isSign
        | cons first others =>
            obtain ⟨rfl, isSplit⟩ := List.cons.inj isSplit
            cases others with
            | cons second others => simp at isSplit
            | nil =>
                refine ⟨⟨[], tape.peek, result, rfl, isName⟩, fun more notSign => ?_⟩
                have isFound : Parser.name (tape.facing ([tape.peek] ++ more)) =
                    .ok result (tape.past [tape.peek] more) := name_of_ident isName
                rw [bind_of_ok isFound]
                exact bind_of_error ((symbol_apply .assign _).trans (if_neg notSign)) _
      · rw [bind_of_error ((symbol_apply .assign _).trans (if_neg isNext))] at isOk
        cases isOk

/-- What is asked for goes together with what is seen, and a sign is not taken by itself. -/
theorem combines : Combines .anywhere id (fun kind => kind ≠ .eof ∧ kind ≠ .symbol .assign)
    fun _ first _ tape => Sees first tape ∧ Insists first tape where
  kinds _ := rfl
  onValue result := ⟨.value result, value result⟩
  onBind isFirst isSecond :=
    ⟨.bind isFirst.1 fun result middle isOk => (isSecond result middle isOk).1,
      bind isFirst.1 isFirst.2 fun result middle isOk => (isSecond result middle isOk).2⟩
  congr _ same _ judged := ⟨judged.1.congr same, judged.2.congr same⟩
  onTake _ allowed judged := ⟨.takeBind judged.1, takeBind allowed.1 allowed.2 judged.2⟩
  onReject _ _ := ⟨.reject rfl, reject _⟩

theorem discipline : Discipline .anywhere id (fun kind => kind ≠ .eof ∧ kind ≠ .symbol .assign)
    fun _ first _ tape => Sees first tape ∧ Insists first tape where
  toCombines := combines
  allows _ notEnd notSign := ⟨notEnd, notSign⟩
  onBoundName inside := ⟨Sees.discipline.onBoundName inside, boundName⟩
  onExhausted _ _ := ⟨.exhausted, exhausted⟩
  onTakeExhausted _ isFirst := by
    refine ⟨.takeBind (isFirst ▸ .exhausted), never ?_⟩
    intro result after isOk
    rw [take_bind, isFirst] at isOk
    cases isOk
  onTakeReject _ blames isFirst _ :=
    ⟨.takeReject isFirst (blames.token _), takeReject isFirst⟩

/-- Every statement asks for the signs that it passes. -/
theorem nextStatement (budget : Nat) (tape : Tape) :
    Insists (do statement budget (← take)) tape := by
  have rules := discipline.rules (Nat.le_refl budget)
  exact (rules.nextStatement discipline (Stages.anywhere_atStart 0 tape)).judged.2

end Insists

end Parser

namespace Tape

variable {tape : Tape}

/-- Where nothing is read, nothing is ahead. -/
theorem ahead_eq_nil_of_parse (isParsed : tape.parse = ⟨[], []⟩) : tape.ahead = [] := by
  by_cases atEnd : tape.ahead = []
  · exact atEnd
  · rcases parse_cases atEnd with ⟨_, _, -, -, isRead⟩ | ⟨_, _, -, -, isRead⟩
    · exact absurd (congrArg Parsed.program (isRead.symm.trans isParsed)) (List.cons_ne_nil _ _)
    · exact absurd (congrArg Parsed.diagnostics (isRead.symm.trans isParsed)) (List.cons_ne_nil _ _)

/-- One statement that is read from a whole tape is read to its end. -/
theorem statement_of_parse {stmt : Stmt} (isParsed : tape.parse = ⟨[stmt], []⟩) :
    ∃ after, (do Parser.statement tape.budget (← Parser.take)) tape = .ok stmt after ∧
      after.ahead = [] := by
  have notEnd : tape.ahead ≠ [] := by
    intro atEnd
    rw [parse_of_end atEnd] at isParsed
    cases isParsed
  rcases parse_cases notEnd with ⟨first, after, isOk, -, isRead⟩ | ⟨_, _, -, -, isRead⟩
  · rw [isParsed] at isRead
    injection isRead with isProgram noDiagnostics
    obtain ⟨rfl, noOthers⟩ := List.cons.inj isProgram
    have nothingLeft : after.parse = ⟨[], []⟩ := by rw [noOthers, noDiagnostics]
    exact ⟨after, isOk, ahead_eq_nil_of_parse nothingLeft⟩
  · exact absurd (congrArg Parsed.diagnostics (isRead.symm.trans isParsed)) (List.cons_ne_nil _ _)

/-- A statement without one of its signs of equality is told to need it where it stood, and the
rest of it is skipped from there. -/
theorem parse_facing_without_sign {front back : List Token} {sign : Token} {stmt : Stmt}
    (isParsed : (tape.facing (front ++ sign :: back)).parse = ⟨[stmt], []⟩)
    (isSign : sign.kind = .symbol .assign) :
    (tape.facing (front ++ back)).parse =
      (tape.past front back).recover.parse.addDiagnostic
        (.unexpected (.symbol .assign) (tape.past front back).peek) := by
  obtain ⟨after, isOk, atEnd⟩ := statement_of_parse isParsed
  obtain ⟨passed, isAhead, -, asked⟩ := Parser.Insists.nextStatement _ _ stmt after isOk
  rw [atEnd, List.append_nil] at isAhead
  have isAsked := asked front sign back isAhead.symm isSign
  -- a second sign would stand behind the first one, and not behind a name
  have notSign : (tape.past front back).peek.kind ≠ .symbol .assign := by
    intro isNext
    obtain ⟨next, others, rfl, isNext⟩ : ∃ next others, back = next :: others ∧
        next.kind = .symbol .assign := by
      cases back with
      | nil => cases isNext
      | cons next others => exact ⟨next, others, rfl, isNext⟩
    have isSplit : passed = (front ++ [sign]) ++ next :: others := by
      rw [← isAhead, List.append_assoc]
      rfl
    obtain ⟨before, bound, name, isBound, isName⟩ := (asked _ _ _ isSplit isNext).named
    obtain ⟨-, isLast⟩ := List.append_inj' isBound rfl
    obtain ⟨rfl, -⟩ := List.cons.inj isLast
    rw [isSign] at isName
    cases isName
  have isError := Parser.statement_of_lasted (isAsked.asks back notSign) (by simp)
  have notEnd : (tape.facing (front ++ back)).ahead ≠ [] :=
    List.append_ne_nil_of_left_ne_nil isAsked.ne_nil back
  exact parse_of_error notEnd isError

end Tape

end Monkey
