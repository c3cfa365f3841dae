/-
# One token ahead

A rule goes by the tokens that it passes and by the one that comes next where it ends, and
by nothing behind that. If it rejects its input, that one is the token that the diagnostic
names. So whatever a source has behind the token of its first diagnostic, and whatever is
put there in its place, that diagnostic comes first.

A rule that begins with a token just taken may reject this very token. Such rules are looked
at from the place before it, where the token is still the next one.
-/

import Monkey.Proofs.Parse.Budget

namespace Monkey

namespace Tape

/-- The tape with other tokens ahead. -/
def facing (tape : Tape) (ahead : List Token) : Tape := { tape with ahead := ahead }

/-- Behind these tokens of a tape is this place. -/
structure Passes (tape : Tape) (passed : List Token) (place : Tape) : Prop where
  ahead : tape.ahead = passed ++ place.ahead
  finish : place.finish = tape.finish

variable {tape middle place : Tape} {passed ahead : List Token}

theorem peek_facing (same : ahead.head? = tape.ahead.head?) :
    (tape.facing ahead).peek = tape.peek := by
  rw [peek, peek, facing, same]

theorem facing_ne_nil (nonempty : tape.ahead ≠ []) (same : ahead.head? = tape.ahead.head?) :
    (tape.facing ahead).ahead ≠ [] := by
  intro isEmpty
  rw [show ahead = [] from isEmpty] at same
  exact nonempty (List.head?_eq_none_iff.mp same.symm)

theorem take_facing (same : ahead.head? = tape.ahead.head?) :
    (tape.facing ahead).take = tape.take.facing ahead.tail := by
  rw [take, take, peek_facing same]
  rfl

namespace Passes

theorem refl (tape : Tape) : tape.Passes [] tape := ⟨rfl, rfl⟩

theorem trans {more : List Token} (first : tape.Passes passed middle)
    (second : middle.Passes more place) : tape.Passes (passed ++ more) place where
  ahead := by rw [first.ahead, second.ahead, List.append_assoc]
  finish := second.finish.trans first.finish

/-- The next token is passed by taking it. At the end there is none. -/
theorem take (tape : Tape) : tape.Passes (tape.ahead.take 1) tape.take where
  ahead := by rw [Tape.take, ← List.drop_one, List.take_append_drop]
  finish := rfl

/-- The token that comes first is one of the passed ones, or the one behind them. -/
theorem head? (passes : tape.Passes passed place) {more : List Token}
    (same : more.head? = place.ahead.head?) : (passed ++ more).head? = tape.ahead.head? := by
  rw [passes.ahead]
  cases passed with
  | nil => exact same
  | cons token tokens => rfl

/-- Taking a token on the way leaves the others that are passed. -/
theorem tail (passes : tape.take.Passes passed place) {more : List Token}
    (same : more.head? = place.ahead.head?) :
    (tape.ahead.take 1 ++ passed ++ more).tail = passed ++ more := by
  cases isAhead : tape.ahead with
  | nil =>
      have nothing : passed ++ place.ahead = [] := by
        rw [← passes.ahead, Tape.take, isAhead]
        rfl
      obtain ⟨rfl, atEnd⟩ := List.append_eq_nil_iff.mp nothing
      rw [atEnd] at same
      rw [List.head?_eq_none_iff.mp same]
      rfl
  | cons token tokens => rfl

/-- A token that is not the end mark is passed by taking it. -/
theorem next (notEnd : tape.peek.kind ≠ .eof) : tape.Passes [tape.peek] tape.take :=
  ⟨ahead_eq_cons notEnd, rfl⟩

/-- The token that comes next is the first of those that are passed. -/
theorem peek (passes : tape.Passes passed place) :
    ∀ kind ∈ (passed.map Token.kind).head?, tape.peek.kind = kind := by
  intro kind isHead
  apply peek_kind_of_mem_head?
  rw [kinds, passes.ahead, List.map_append]
  cases passed with
  | nil => cases isHead
  | cons token tokens => exact isHead

end Passes

end Tape

namespace Parser

variable {α β : Type} {tape : Tape}

/-- The rule goes by the tokens that it passes and the one that comes next then, which is the
one that it may reject. -/
def Sees (rule : Parser α) (tape : Tape) : Prop :=
  match rule tape with
  | .ok result after =>
    ∃ passed, tape.Passes passed after ∧ ∀ more, more.head? = after.ahead.head? →
      rule (tape.facing (passed ++ more)) = .ok result (after.facing more)
  | .error stop _ =>
    ∃ passed place, tape.Passes passed place ∧
      (∀ diagnostic, stop = .rejected diagnostic → diagnostic.token = place.peek) ∧
      ∀ more, more.head? = place.ahead.head? →
        ∃ stopped, rule (tape.facing (passed ++ more)) = .error stop stopped

namespace Sees

theorem bind {first : Parser α} {second : α → Parser β} (isFirst : Sees first tape)
    (isSecond : ∀ result middle, first tape = .ok result middle → Sees (second result) middle) :
    Sees (first >>= second) tape := by
  rw [Sees] at isFirst
  cases reached : first tape with
  | error stop stopped =>
      rw [reached] at isFirst
      rw [Sees, bind_of_error reached]
      obtain ⟨passed, place, passes, isToken, alike⟩ := isFirst
      refine ⟨passed, place, passes, isToken, fun more same => ?_⟩
      obtain ⟨other, isError⟩ := alike more same
      exact ⟨other, bind_of_error isError second⟩
  | ok result middle =>
      rw [reached] at isFirst
      obtain ⟨passed, passes, alike⟩ := isFirst
      have sees := isSecond result middle reached
      rw [Sees] at sees
      rw [Sees, bind_of_ok reached]
      cases ended : second result middle with
      | ok answer after =>
          rw [ended] at sees
          obtain ⟨others, passesOthers, alikeThen⟩ := sees
          refine ⟨passed ++ others, passes.trans passesOthers, fun more same => ?_⟩
          rw [List.append_assoc, bind_of_ok (alike _ (passesOthers.head? same))]
          exact alikeThen more same
      | error stop stopped =>
          rw [ended] at sees
          obtain ⟨others, place, passesOthers, isToken, alikeThen⟩ := sees
          refine ⟨passed ++ others, place, passes.trans passesOthers, isToken, fun more same => ?_⟩
          rw [List.append_assoc, bind_of_ok (alike _ (passesOthers.head? same))]
          exact alikeThen more same

theorem value (result : α) : Sees (pure result) tape :=
  ⟨[], .refl tape, fun _ _ => rfl⟩

theorem exhausted : Sees (exhausted : Parser α) tape :=
  ⟨[], tape, .refl tape, by simp, fun _ _ => ⟨_, rfl⟩⟩

/-- The next token may be rejected without taking it. -/
theorem reject {diagnostic : Diagnostic} (isToken : diagnostic.token = tape.peek) :
    Sees (reject diagnostic : Parser α) tape := by
  refine ⟨[], tape, .refl tape, ?_, fun _ _ => ⟨_, rfl⟩⟩
  rintro _ ⟨⟩
  exact isToken

/-- Rules that do the same wherever this token comes next see the same here. -/
theorem congr {rule other : Parser α}
    (same : ∀ image : Tape, image.peek = tape.peek → rule image = other image)
    (sees : Sees other tape) : Sees rule tape := by
  rw [Sees] at sees ⊢
  rw [same tape rfl]
  cases reached : other tape with
  | ok result after =>
      rw [reached] at sees
      obtain ⟨passed, passes, alike⟩ := sees
      refine ⟨passed, passes, fun more sameHead => ?_⟩
      rw [same _ (Tape.peek_facing (passes.head? sameHead))]
      exact alike more sameHead
  | error stop stopped =>
      rw [reached] at sees
      obtain ⟨passed, place, passes, isToken, alike⟩ := sees
      refine ⟨passed, place, passes, isToken, fun more sameHead => ?_⟩
      rw [same _ (Tape.peek_facing (passes.head? sameHead))]
      exact alike more sameHead

/-- The next token may be rejected after it has been taken. -/
theorem takeReject {second : Token → Parser β} {diagnostic : Diagnostic}
    (isReject : second tape.peek = Parser.reject diagnostic)
    (isToken : diagnostic.token = tape.peek) : Sees (take >>= second) tape := by
  have sees : Sees (take >>= fun _ => Parser.reject diagnostic : Parser β) tape := by
    refine ⟨[], tape, .refl tape, ?_, fun _ _ => ⟨_, rfl⟩⟩
    rintro _ ⟨⟩
    exact isToken
  apply sees.congr
  intro image samePeek
  rw [take_bind, take_bind, samePeek, isReject]

theorem taking : Sees take tape := by
  refine ⟨tape.ahead.take 1, .take tape, fun more same => ?_⟩
  have sameHead := (Tape.Passes.take tape).head? same
  show EStateM.Result.ok (tape.facing _).peek (tape.facing _).take = _
  have leaves := (Tape.Passes.refl tape.take).tail same
  rw [List.append_nil, List.nil_append] at leaves
  rw [Tape.peek_facing sameHead, Tape.take_facing sameHead, leaves]

theorem takeBind {second : Token → Parser β} (isSecond : Sees (second tape.peek) tape.take) :
    Sees (take >>= second) tape := by
  apply bind taking
  rintro _ _ ⟨⟩
  exact isSecond

theorem combines : Combines .anywhere id (fun _ => True) fun _ first _ tape => Sees first tape where
  kinds _ := rfl
  onValue := value
  onBind := bind
  congr _ same _ := congr same
  onTake _ _ := takeBind
  onReject _ _ := reject rfl

theorem discipline :
    Discipline .anywhere id (fun _ => True) fun _ first _ tape => Sees first tape where
  toCombines := combines
  allows _ _ _ := trivial
  onBoundName inside := (combines.boundName (fun _ => trivial) inside).judged
  onExhausted _ _ := exhausted
  onTakeExhausted _ isFirst := takeBind (isFirst ▸ exhausted)
  onTakeReject _ blames isFirst _ := takeReject isFirst (blames.token _)

/-- No statement is looked at further than one token ahead. -/
theorem nextStatement (budget : Nat) (tape : Tape) :
    Sees (do statement budget (← take)) tape := by
  have rules := discipline.rules (Nat.le_refl budget)
  exact (rules.nextStatement discipline (Stages.anywhere_atStart 0 tape)).judged

end Sees

end Parser

namespace Tape

/-- What is read up to the first diagnostic stays as it is, and the diagnostic with it, if
something else stands behind the token that it names. -/
theorem head?_diagnostics_facing {tape : Tape} {diagnostic : Diagnostic}
    (isFirst : tape.parse.diagnostics.head? = some diagnostic) :
    ∃ passed place, tape.Passes passed place ∧ diagnostic.token = place.peek ∧
      ∀ more, more.head? = place.ahead.head? →
        (tape.facing (passed ++ more)).parse.diagnostics.head? = some diagnostic := by
  induction tape using parse_induction with
  | atEnd tape isEnd =>
      rw [parse_of_end isEnd] at isFirst
      cases isFirst
  | sound tape stmt after nonempty isOk isParsed ih =>
      have isOk : (do Parser.statement tape.budget (← Parser.take)) tape = .ok stmt after := isOk
      have sees := Parser.Sees.nextStatement tape.budget tape
      rw [Parser.Sees, isOk] at sees
      obtain ⟨passed, passes, alike⟩ := sees
      rw [isParsed] at isFirst
      obtain ⟨others, place, passesOthers, isToken, firstThen⟩ := ih isFirst
      refine ⟨passed ++ others, place, passes.trans passesOthers, isToken, fun more same => ?_⟩
      rw [List.append_assoc]
      have sameHead := passesOthers.head? same
      have isRead := Parser.statement_of_lasted (alike _ sameHead) (by simp)
      rw [parse_of_ok (facing_ne_nil nonempty (passes.head? sameHead)) isRead]
      exact firstThen more same
  | broken tape other stopped nonempty isError isParsed _ =>
      have isError : (do Parser.statement tape.budget (← Parser.take)) tape =
          .error (.rejected other) stopped := isError
      have sees := Parser.Sees.nextStatement tape.budget tape
      rw [Parser.Sees, isError] at sees
      obtain ⟨passed, place, passes, isToken, alike⟩ := sees
      rw [isParsed] at isFirst
      obtain rfl : other = diagnostic := Option.some.inj isFirst
      refine ⟨passed, place, passes, isToken _ rfl, fun more same => ?_⟩
      obtain ⟨stoppedThen, isErrorThen⟩ := alike more same
      have isRead := Parser.statement_of_lasted isErrorThen (by simp)
      rw [parse_of_error (facing_ne_nil nonempty (passes.head? same)) isRead]
      rfl

end Tape

end Monkey
