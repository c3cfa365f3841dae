/-
# Where rules stop

A rule moves by taking tokens, whichever way it ends. If it rejects a token, then either it has
just taken that token, or it asks for something else than the token that comes next, and this one
is still ahead. Behind a semicolon no rule asks for anything: a symbol or a name is asked for only
within a statement, and there the token taken last was another one.
-/

import Monkey.Proofs.Parse.Discipline

namespace Monkey

namespace Tape

/-- The second place is where the first one gets to by taking tokens. -/
inductive Takes : Tape → Tape → Prop
  | refl {tape : Tape} : Takes tape tape
  | take {tape place : Tape} (later : Takes tape.take place) : Takes tape place

variable {tape middle place : Tape}

theorem Takes.trans (first : tape.Takes middle) (second : middle.Takes place) :
    tape.Takes place := by
  induction first with
  | refl => exact second
  | take _ ih => exact .take (ih second)

theorem takes_skipSemicolon (tape : Tape) : tape.Takes tape.skipSemicolon := by
  rw [skipSemicolon]
  split
  · exact .take .refl
  · exact .refl

theorem takes_recover (tape : Tape) : tape.Takes tape.recover := by
  induction tape using recover.induct with
  | case1 tape isBoundary isBrace =>
      rw [recover_of_boundary isBoundary, if_pos isBrace]
      exact takes_skipSemicolon tape
  | case2 tape isBoundary notBrace =>
      rw [recover_of_boundary isBoundary, if_neg notBrace]
      exact .refl
  | case3 tape notBoundary atEnd =>
      rw [recover_of_end notBoundary atEnd]
      exact .refl
  | case4 tape notBoundary notEnd ih =>
      rw [recover_of_next notBoundary notEnd]
      exact .take ih

/-- Taking tokens leaves no more of them. -/
theorem Takes.length_le (takes : tape.Takes place) : place.ahead.length ≤ tape.ahead.length := by
  induction takes with
  | refl => exact Nat.le_refl _
  | @take tape place _ ih =>
      have taken : tape.take.ahead.length = tape.ahead.length - 1 := List.length_tail
      omega

/-- The token taken last is no semicolon. -/
def Unended (tape : Tape) : Prop := ∀ token ∈ tape.last, token.kind ≠ .symbol .semicolon

theorem unended_of_last {token : Token} (isLast : tape.last = some token)
    (notSemicolon : token.kind ≠ .symbol .semicolon) : tape.Unended := by
  intro other isOther
  rw [isLast] at isOther
  cases isOther
  exact notSemicolon

theorem unended_take (notSemicolon : tape.peek.kind ≠ .symbol .semicolon) : tape.take.Unended :=
  unended_of_last rfl notSemicolon

/-- Where a rule stops, the diagnostic names the token taken last, or else the next one, in the
place of which the rule asks for another. -/
inductive Names (stopped : Tape) : Diagnostic → Prop
  | taken {diagnostic : Diagnostic} (isLast : stopped.last = some diagnostic.token) :
    stopped.Names diagnostic
  | next (expected : Expected) (unended : stopped.Unended) :
    stopped.Names (.unexpected expected stopped.peek)

end Tape

namespace Parser

variable {α β : Type} {tape : Tape}

/-! ## Moving along -/

/-- Where the tape is in the end, either way. -/
def endPlace : EStateM.Result Stop Tape α → Tape
  | .ok _ after => after
  | .error _ stopped => stopped

/-- The rule moves by taking tokens. -/
def Moves : Judgement := fun _ first _ tape => tape.Takes (endPlace (first tape))

namespace Moves

theorem bind {first first' : Parser α} {second second' : α → Parser β}
    (isFirst : Moves first first' tape)
    (isSecond : ∀ result middle, first tape = .ok result middle →
      Moves (second result) (second' result) middle) :
    Moves (first >>= second) (first' >>= second') tape := by
  rw [Moves] at isFirst ⊢
  cases reached : first tape with
  | ok result middle =>
      rw [reached] at isFirst
      rw [bind_of_ok reached]
      exact isFirst.trans (isSecond result middle reached)
  | error stop stopped =>
      rw [reached] at isFirst
      rw [bind_of_error reached]
      exact isFirst

theorem combines : Combines .anywhere id (fun _ => True) Moves where
  kinds _ := rfl
  onValue _ := .refl
  onBind := bind
  congr _ same _ moves := by
    rw [Moves, same _ rfl]
    exact moves
  onTake _ _ moves := .take moves
  onReject _ _ := .refl

theorem discipline : Discipline .anywhere id (fun _ => True) Moves :=
  combines.discipline (fun _ => trivial) (fun _ _ => ⟨.refl, .refl⟩) fun _ _ => .refl

theorem of_begins {token : Token} {first second : Parser α} {goal : Tape → Prop}
    (begins : BeginsWith id Moves token first second tape goal) : Moves first second tape :=
  begins.judged (fun _ => .refl) fun _ _ => .refl

end Moves

/-! ## Tokens that are rejected -/

/-- A diagnostic names a token at the place where the rule stops. -/
def Locates : Judgement := fun _ first _ tape =>
  ∀ diagnostic stopped, first tape = .error (.rejected diagnostic) stopped →
    stopped.Names diagnostic

/-- Within a statement the token taken last is no semicolon. -/
def Stages.unended : Stages where
  atStart _ _ := True
  inside _ := Tape.Unended
  behind _ _ := True
  atStart_of_inside _ := trivial
  inside_take _ _ := Tape.unended_take
  behind_skipSemicolon _ := trivial
  atStart_of_behind _ := trivial

namespace Locates

theorem bind {first first' : Parser α} {second second' : α → Parser β}
    (isFirst : Locates first first' tape)
    (isSecond : ∀ result middle, first tape = .ok result middle →
      Locates (second result) (second' result) middle) :
    Locates (first >>= second) (first' >>= second') tape := by
  intro diagnostic stopped isError
  cases reached : first tape with
  | ok result middle =>
      rw [bind_of_ok reached] at isError
      exact isSecond result middle reached diagnostic stopped isError
  | error stop place =>
      rw [bind_of_error reached] at isError
      cases isError
      exact isFirst diagnostic stopped reached

theorem exhausted (other : Parser α) : Locates Parser.exhausted other tape := by
  rintro _ _ ⟨⟩

theorem reject {diagnostic : Diagnostic} (names : tape.Names diagnostic) (other : Parser α) :
    Locates (Parser.reject diagnostic) other tape := by
  rintro _ _ ⟨⟩
  exact names

theorem combines : Combines .unended id (fun _ => True) Locates where
  kinds _ := rfl
  onValue _ := by rintro _ _ ⟨⟩
  onBind := bind
  congr _ same _ locates := by
    intro diagnostic stopped isError
    rw [same _ rfl] at isError
    exact locates diagnostic stopped isError
  onTake _ _ locates := locates
  onReject unended expected := reject (.next expected unended) _

theorem discipline : Discipline .unended id (fun _ => True) Locates := by
  apply combines.discipline (fun _ => trivial)
  · exact fun _ other => ⟨exhausted other, exhausted other⟩
  · intro α _ tape cause _ blames
    exact reject (.taken (congrArg some (blames.token tape.peek).symm)) _

theorem of_begins {token : Token} {first second : Parser α} {goal : Tape → Prop}
    (begins : BeginsWith id Locates token first second tape goal)
    (isLast : tape.last = some token) : Locates first second tape := by
  apply begins.judged exhausted
  intro cause blames
  exact reject (.taken (by rw [isLast, blames.token])) _

end Locates

/-- Where a statement is broken, the diagnostic names a token at that place. -/
theorem names_of_rejected {budget : Nat} {stopped : Tape} {diagnostic : Diagnostic}
    (isError : statement budget tape.peek tape.take = .error (.rejected diagnostic) stopped) :
    stopped.Names diagnostic := by
  have rules := Locates.discipline.rules (Nat.le_refl budget)
  have taken : Stages.unended.Taken 0 tape.peek tape.take := Stages.taken trivial
  exact Locates.of_begins (rules.statement taken) rfl diagnostic stopped isError

end Parser

end Monkey
