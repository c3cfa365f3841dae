/-
# Disciplines of reading

Much of what can be said of reading goes for every rule alike: that it looks one token ahead and
no further, that it goes by the kinds of tokens, that what it rejects is a token at the place where
it stops. Whether such a thing holds is settled by the steps of which rules are made, and not by
the way they are made of them: looking at the next token, taking it, rejecting it, giving up, and
one thing after another. A judgement of this sort is given by its laws for these steps. The
induction over the rules and over the budget is made here, once for all judgements.

A judgement compares two runs, that of a rule and that of the same rule with at least as much
budget, in front of other tokens of the same kinds. One that is about a single run pays no heed to
the second. What may be supposed of a place is a matter of the stage that reading has come to
there, and of the number of open braces.

What a rule builds, and which rules it enters, is not the same for any two of them, and so it is
not a judgement in this sense.
-/

import Monkey.Proofs.Parse.Steps

namespace Monkey

/-! ## Tokens within a statement -/

namespace Kind

/-- Tokens that neither end a statement nor open or close a block. The sign of a binding is left
out too, because it is taken in one place only. -/
def isInner : Kind → Bool
  | .eof => false
  | .symbol .semicolon => false
  | .symbol .leftBrace => false
  | .symbol .rightBrace => false
  | .symbol .assign => false
  | _ => true

variable {kind : Kind}

theorem isInner_of_start (starts : kind.start ≠ .nothing) : kind.isInner = true := by
  cases kind with
  | symbol spelled => cases spelled <;> first | rfl | exact absurd rfl starts
  | eof => exact absurd rfl starts
  | _ => rfl

theorem isInner_of_continuation {continuation : Continuation}
    (isNext : kind.continuation? = some continuation) : kind.isInner = true := by
  cases kind with
  | symbol spelled => cases spelled <;> first | rfl | cases isNext
  | eof => cases isNext
  | _ => rfl

theorem ne_of_isInner {other : Kind} (isInner : kind.isInner = true)
    (notInner : other.isInner = false) : kind ≠ other := by
  rintro rfl
  rw [isInner] at notInner
  cases notInner

theorem depthAfter_of_isInner (isInner : kind.isInner = true) (depth : Nat) :
    Tape.depthAfter depth kind = depth := by
  cases kind with
  | symbol spelled => cases spelled <;> first | rfl | cases isInner
  | _ => rfl

end Kind

/-- The same cause at another token. -/
def Diagnostic.map (f : Token → Token) : Diagnostic → Diagnostic
  | unexpected expected got => unexpected expected (f got)
  | noOperand token => noOperand (f token)
  | illegal token => illegal (f token)
  | integerTooLarge token => integerTooLarge (f token)

/-- A cause that is the same for every token, and is about that token. -/
def Diagnostic.Blames (cause : Token → Diagnostic) : Prop :=
  ∀ f token, (cause token).map f = cause (f token)

theorem Diagnostic.Blames.token {cause : Token → Diagnostic} (blames : Blames cause)
    (token : Token) : (cause token).token = token := by
  rw [← blames (fun _ => token) token]
  cases cause token <;> rfl

namespace Parser

/-! ## Stages -/

/-- What reading has come to at a place, with so many braces open: something may begin there, a
statement is being read, or one has just ended. -/
structure Stages where
  atStart : Nat → Tape → Prop
  inside : Nat → Tape → Prop
  behind : Nat → Tape → Prop
  atStart_of_inside : ∀ {depth tape}, inside depth tape → atStart depth tape
  inside_take : ∀ {depth tape}, atStart depth tape → tape.peek.kind ≠ .eof →
    tape.peek.kind ≠ .symbol .semicolon →
      inside (Tape.depthAfter depth tape.peek.kind) tape.take
  behind_skipSemicolon : ∀ {depth tape}, inside depth tape → behind depth tape.skipSemicolon
  /-- Within a block another statement may follow. -/
  atStart_of_behind : ∀ {depth tape}, behind (depth + 1) tape → atStart (depth + 1) tape

namespace Stages

/-- Nothing has to be supposed of any place. -/
def anywhere : Stages where
  atStart _ _ := True
  inside _ _ := True
  behind _ _ := True
  atStart_of_inside := id
  inside_take _ _ _ := trivial
  behind_skipSemicolon := id
  atStart_of_behind := id

theorem anywhere_atStart (depth : Nat) (tape : Tape) : anywhere.atStart depth tape := trivial

theorem anywhere_inside (tape : Tape) : anywhere.inside 0 tape := trivial

variable (stages : Stages) {depth : Nat} {token : Token} {tape : Tape}

/-- The token has just been taken where something may begin, and so many braces were open. -/
def Taken (depth : Nat) (token : Token) (tape : Tape) : Prop :=
  token.kind ≠ .eof → token.kind ≠ .symbol .semicolon →
    stages.inside (Tape.depthAfter depth token.kind) tape

theorem anywhere_taken (token : Token) (tape : Tape) : anywhere.Taken 0 token tape :=
  fun _ _ => trivial

variable {stages}

theorem taken (atStart : stages.atStart depth tape) : stages.Taken depth tape.peek tape.take :=
  stages.inside_take atStart

theorem Taken.inside (taken : stages.Taken depth token tape) (isInner : token.kind.isInner = true) :
    stages.inside depth tape := by
  have isInside := taken (Kind.ne_of_isInner isInner rfl) (Kind.ne_of_isInner isInner rfl)
  rwa [Kind.depthAfter_of_isInner isInner] at isInside

end Stages

/-! ## Judgements on steps -/

/-- A judgement on two rules, the first of them at this place. -/
abbrev Judgement := ∀ ⦃α : Type⦄, Parser α → Parser α → Tape → Prop

/-- Laws of a judgement for what can be done with the next token, if it is of a kind that may be
taken, and for one thing after another. -/
structure Combines (stages : Stages) (f : Token → Token) (takes : Kind → Prop)
    (Judged : Judgement) : Prop where
  kinds : ∀ token, (f token).kind = token.kind
  onValue : ∀ {α : Type} {tape : Tape} (result : α), Judged (pure result) (pure result) tape
  onBind : ∀ {α β : Type} {tape : Tape} {first first' : Parser α} {second second' : α → Parser β},
    Judged first first' tape →
    (∀ result middle, first tape = .ok result middle →
      Judged (second result) (second' result) middle) →
    Judged (first >>= second) (first' >>= second') tape
  /-- It goes by what rules do in front of the next token. -/
  congr : ∀ {α : Type} {depth : Nat} {tape : Tape} {first first' other other' : Parser α},
    stages.atStart depth tape →
    (∀ image : Tape, image.peek = tape.peek → first image = other image) →
    (∀ image : Tape, image.peek = f tape.peek → first' image = other' image) →
    Judged other other' tape → Judged first first' tape
  onTake : ∀ {α : Type} {depth : Nat} {tape : Tape} {second second' : Token → Parser α},
    stages.atStart depth tape → takes tape.peek.kind →
    Judged (second tape.peek) (second' (f tape.peek)) tape.take →
    Judged (take >>= second) (take >>= second') tape
  /-- Within a statement something else than the next token may be asked for. -/
  onReject : ∀ {α : Type} {depth : Nat} {tape : Tape}, stages.inside depth tape → ∀ expected,
    Judged (reject (.unexpected expected tape.peek) : Parser α)
      (reject (.unexpected expected (f tape.peek))) tape

/-- The two runs are judged, and if the first succeeds it ends at a place of this kind. -/
structure Leads (Judged : Judgement) {α : Type} (first second : Parser α) (tape : Tape)
    (goal : Tape → Prop) : Prop where
  judged : Judged first second tape
  ends : ∀ result after, first tape = .ok result after → goal after

section

variable {stages : Stages} {f : Token → Token} {takes : Kind → Prop} {Judged : Judgement}
  {α β : Type} {depth budget more : Nat} {tape : Tape} {goal other : Tape → Prop}

namespace Combines

variable (combines : Combines stages f takes Judged)

include combines

theorem value (result : α) (isGoal : goal tape) :
    Leads Judged (pure result) (pure result) tape goal where
  judged := combines.onValue result
  ends := by
    rintro _ _ ⟨⟩
    exact isGoal

theorem bind {first first' : Parser α} {second second' : α → Parser β}
    (isFirst : Leads Judged first first' tape other)
    (isSecond : ∀ result middle, other middle →
      Leads Judged (second result) (second' result) middle goal) :
    Leads Judged (first >>= second) (first' >>= second') tape goal where
  judged := combines.onBind isFirst.judged fun result middle isOk =>
    (isSecond result middle (isFirst.ends result middle isOk)).judged
  ends := by
    intro answer after isOk
    cases reached : first tape with
    | ok result middle =>
        rw [bind_of_ok reached] at isOk
        exact (isSecond result middle (isFirst.ends result middle reached)).ends answer after isOk
    | error stop stopped =>
        rw [bind_of_error reached] at isOk
        cases isOk

theorem peekBind (atStart : stages.atStart depth tape) {second second' : Token → Parser α}
    (isSecond : Leads Judged (second tape.peek) (second' (f tape.peek)) tape goal) :
    Leads Judged (peek >>= second) (peek >>= second') tape goal where
  judged := by
    apply combines.congr atStart _ _ isSecond.judged
    · intro image samePeek
      rw [peek_bind, samePeek]
    · intro image samePeek
      rw [peek_bind, samePeek]
  ends := isSecond.ends

theorem takeBind (atStart : stages.atStart depth tape) (allowed : takes tape.peek.kind)
    {second second' : Token → Parser α}
    (isSecond : Leads Judged (second tape.peek) (second' (f tape.peek)) tape.take goal) :
    Leads Judged (take >>= second) (take >>= second') tape goal where
  judged := combines.onTake atStart allowed isSecond.judged
  ends := isSecond.ends

theorem reject (inside : stages.inside depth tape) (expected : Expected) :
    Leads Judged (reject (.unexpected expected tape.peek) : Parser α)
      (Parser.reject (.unexpected expected (f tape.peek))) tape goal where
  judged := combines.onReject inside expected
  ends := by rintro _ _ ⟨⟩

/-- A symbol may open or close a block, but it does not end a statement. -/
theorem symbol {spelled : Symbol} (allowed : takes (.symbol spelled))
    (notSemicolon : spelled ≠ .semicolon) (inside : stages.inside depth tape) :
    Leads Judged (symbol spelled) (symbol spelled) tape
      (stages.inside (Tape.depthAfter depth (.symbol spelled))) := by
  have atStart := stages.atStart_of_inside inside
  rw [Parser.symbol]
  apply combines.peekBind atStart
  rw [combines.kinds]
  split
  · next isSymbol =>
      have taken := stages.inside_take atStart (by simp [isSymbol]) (by simpa [isSymbol])
      rw [isSymbol] at taken
      exact combines.takeBind atStart (isSymbol ▸ allowed) (combines.value () taken)
  · exact combines.reject inside _

theorem name (allowed : ∀ name, takes (.ident name)) (inside : stages.inside depth tape) :
    Leads Judged name name tape (stages.inside depth) := by
  have atStart := stages.atStart_of_inside inside
  rw [Parser.name]
  apply combines.peekBind atStart
  rw [combines.kinds]
  split
  · next isName =>
      have taken := stages.inside_take atStart (by simp [isName]) (by simp [isName])
      rw [isName] at taken
      exact combines.takeBind atStart (isName ▸ allowed _) (combines.value _ taken)
  · exact combines.reject inside _

/-- A name with the sign of a binding behind it, if such a sign can be taken by itself. -/
theorem boundName (allowed : ∀ kind, takes kind) (inside : stages.inside depth tape) :
    Leads Judged (do let bound ← Parser.name; Parser.symbol .assign; pure bound)
      (do let bound ← Parser.name; Parser.symbol .assign; pure bound) tape
      (stages.inside depth) := by
  apply combines.bind (combines.name (fun _ => allowed _) inside)
  intro bound middle inside
  apply combines.bind (combines.symbol (allowed _) (by simp) inside)
  exact fun _ after inside => combines.value bound inside

omit combines in
/-- Where steps lead does not depend on any judgement. -/
theorem unjudged (stages : Stages) : Combines stages id (fun _ => True) fun _ _ _ _ => True where
  kinds _ := rfl
  onValue _ := trivial
  onBind _ _ := trivial
  congr _ _ _ _ := trivial
  onTake _ _ _ := trivial
  onReject _ _ := trivial

end Combines

/-! ## Disciplines -/

/-- Laws of a judgement for all steps of which rules are made. The sign of a binding need not be
taken by itself. -/
structure Discipline (stages : Stages) (f : Token → Token) (takes : Kind → Prop)
    (Judged : Judgement) : Prop extends Combines stages f takes Judged where
  allows : ∀ kind, kind ≠ .eof → kind ≠ .symbol .assign → takes kind
  onBoundName : ∀ {depth : Nat} {tape : Tape}, stages.inside depth tape →
    Judged (do let bound ← name; symbol .assign; pure bound)
      (do let bound ← name; symbol .assign; pure bound) tape
  onExhausted : ∀ {α : Type} {depth : Nat} {tape : Tape}, stages.atStart depth tape →
    ∀ other : Parser α, Judged exhausted other tape
  /-- A rule may give up, or reject a token, when it has just taken it. -/
  onTakeExhausted : ∀ {α : Type} {depth : Nat} {tape : Tape} {second second' : Token → Parser α},
    stages.atStart depth tape → second tape.peek = exhausted →
    Judged (take >>= second) (take >>= second') tape
  onTakeReject : ∀ {α : Type} {depth : Nat} {tape : Tape} {second second' : Token → Parser α}
    {cause : Token → Diagnostic}, stages.atStart depth tape → Diagnostic.Blames cause →
    second tape.peek = reject (cause tape.peek) →
    second' (f tape.peek) = reject (cause (f tape.peek)) →
    Judged (take >>= second) (take >>= second') tape

/-- If every token can be taken by itself, what is left is how a rule stops. -/
theorem Combines.discipline (combines : Combines stages f takes Judged)
    (allowed : ∀ kind, takes kind)
    (exhausted : ∀ {α : Type} {depth : Nat} {tape : Tape}, stages.atStart depth tape →
      ∀ other : Parser α, Judged exhausted other tape ∧ Judged Parser.exhausted other tape.take)
    (reject : ∀ {α : Type} {depth : Nat} {tape : Tape} {cause : Token → Diagnostic},
      stages.atStart depth tape → Diagnostic.Blames cause →
      Judged (Parser.reject (cause tape.peek) : Parser α) (Parser.reject (cause (f tape.peek)))
        tape.take) :
    Discipline stages f takes Judged where
  toCombines := combines
  allows kind _ _ := allowed kind
  onBoundName inside := (combines.boundName allowed inside).judged
  onExhausted atStart other := (exhausted atStart other).1
  onTakeExhausted atStart isFirst := by
    apply combines.onTake atStart (allowed _)
    rw [isFirst]
    exact (exhausted atStart _).2
  onTakeReject atStart blames isFirst isSecond := by
    apply combines.onTake atStart (allowed _)
    rw [isFirst, isSecond]
    exact reject atStart blames

/-- A rule that begins with a token just taken goes on behind it, or it stops at that very
token. -/
inductive BeginsWith (f : Token → Token) (Judged : Judgement) {α : Type} (token : Token)
    (first second : Parser α) (tape : Tape) (goal : Tape → Prop) : Prop
  | goesOn (isInner : token.kind.isInner = true) (leads : Leads Judged first second tape goal)
  | exhausted (isFirst : first = exhausted)
  | rejects (cause : Token → Diagnostic) (blames : Diagnostic.Blames cause)
    (isFirst : first = reject (cause token)) (isSecond : second = reject (cause (f token)))

namespace BeginsWith

variable {token : Token} {first first' : Parser α} {second second' : α → Parser β}

/-- How a rule goes on is judged already, so it matters only how it may stop. -/
theorem judged (begins : BeginsWith f Judged token first first' tape goal)
    (exhausted : ∀ rule : Parser α, Judged Parser.exhausted rule tape)
    (rejects : ∀ cause, Diagnostic.Blames cause →
      Judged (reject (cause token) : Parser α) (reject (cause (f token))) tape) :
    Judged first first' tape := by
  cases begins with
  | goesOn _ leads => exact leads.judged
  | exhausted isFirst =>
      rw [isFirst]
      exact exhausted first'
  | rejects cause blames isFirst isSecond =>
      rw [isFirst, isSecond]
      exact rejects cause blames

theorem bind (combines : Combines stages f takes Judged)
    (begins : BeginsWith f Judged token first first' tape other)
    (isSecond : ∀ result middle, other middle →
      Leads Judged (second result) (second' result) middle goal) :
    BeginsWith f Judged token (first >>= second) (first' >>= second') tape goal := by
  cases begins with
  | goesOn isInner leads => exact .goesOn isInner (combines.bind leads isSecond)
  | exhausted isFirst => exact .exhausted (by rw [isFirst]; rfl)
  | rejects cause blames isFirst isSecond =>
      exact .rejects cause blames (by rw [isFirst]; rfl) (by rw [isSecond]; rfl)

end BeginsWith

namespace Discipline

variable (discipline : Discipline stages f takes Judged)

include discipline

theorem exhausted (atStart : stages.atStart depth tape) (second : Parser α) :
    Leads Judged Parser.exhausted second tape goal where
  judged := discipline.onExhausted atStart second
  ends := by rintro _ _ ⟨⟩

/-- A token within a statement can be taken by itself. -/
theorem takeInner (atStart : stages.atStart depth tape) (isInner : tape.peek.kind.isInner = true)
    {second second' : Token → Parser α}
    (isSecond : stages.inside depth tape.take →
      Leads Judged (second tape.peek) (second' (f tape.peek)) tape.take goal) :
    Leads Judged (take >>= second) (take >>= second') tape goal := by
  have notEnd : tape.peek.kind ≠ .eof := Kind.ne_of_isInner isInner rfl
  have notSign : tape.peek.kind ≠ .symbol .assign := Kind.ne_of_isInner isInner rfl
  apply discipline.takeBind atStart (discipline.allows _ notEnd notSign)
  exact isSecond ((stages.taken atStart).inside isInner)

/-- What begins with the next token is known by that token. -/
theorem takeBegins (atStart : stages.atStart depth tape) {second second' : Token → Parser α}
    (begins : BeginsWith f Judged tape.peek (second tape.peek) (second' (f tape.peek)) tape.take
      goal) :
    Leads Judged (take >>= second) (take >>= second') tape goal := by
  cases begins with
  | goesOn isInner leads => exact discipline.takeInner atStart isInner fun _ => leads
  | exhausted isFirst =>
      refine ⟨discipline.onTakeExhausted atStart isFirst, ?_⟩
      intro result after isOk
      rw [take_bind, isFirst] at isOk
      cases isOk
  | rejects cause blames isFirst isSecond =>
      refine ⟨discipline.onTakeReject atStart blames isFirst isSecond, ?_⟩
      intro result after isOk
      rw [take_bind, isFirst] at isOk
      cases isOk

theorem symbol {spelled : Symbol} (notSemicolon : spelled ≠ .semicolon)
    (notSign : spelled ≠ .assign) (inside : stages.inside depth tape) :
    Leads Judged (symbol spelled) (symbol spelled) tape
      (stages.inside (Tape.depthAfter depth (.symbol spelled))) :=
  discipline.toCombines.symbol (discipline.allows _ (by simp) (by simpa)) notSemicolon inside

theorem name (inside : stages.inside depth tape) :
    Leads Judged name name tape (stages.inside depth) :=
  discipline.toCombines.name (fun _ => discipline.allows _ (by simp) (by simp)) inside

/-- A binding goes on behind its name and the sign. -/
theorem boundNameBind {second second' : String → Parser α} (inside : stages.inside depth tape)
    (isSecond : ∀ bound middle, stages.inside depth middle →
      Leads Judged (second bound) (second' bound) middle goal) :
    Leads Judged (do let bound ← Parser.name; Parser.symbol .assign; second bound)
      (do let bound ← Parser.name; Parser.symbol .assign; second' bound) tape goal := by
  have unjudged := (Combines.unjudged stages).boundName (fun _ => trivial) inside
  have isBound : Leads Judged (do let bound ← Parser.name; Parser.symbol .assign; pure bound)
      (do let bound ← Parser.name; Parser.symbol .assign; pure bound) tape (stages.inside depth) :=
    ⟨discipline.onBoundName inside, unjudged.ends⟩
  have leads := discipline.bind isBound isSecond
  simpa only [bind_assoc, pure_bind] using leads

/-- One semicolon is taken if it comes next, and that is the end of the statement. -/
theorem skipSemicolon (inside : stages.inside depth tape) :
    Leads Judged skipSemicolon skipSemicolon tape (stages.behind depth) where
  judged := by
    have atStart := stages.atStart_of_inside inside
    by_cases isSemicolon : tape.peek.kind = .symbol .semicolon
    · have allowed : takes tape.peek.kind :=
        discipline.allows _ (by simp [isSemicolon]) (by simp [isSemicolon])
      have taken : Judged (take >>= fun _ => pure ()) (take >>= fun _ => pure ()) tape :=
        discipline.onTake atStart allowed (discipline.onValue ())
      apply discipline.congr atStart _ _ taken
      · intro image samePeek
        exact skipSemicolon_of_semicolon (samePeek ▸ isSemicolon)
      · intro image samePeek
        exact skipSemicolon_of_semicolon (by rw [samePeek, discipline.kinds, isSemicolon])
    · apply discipline.congr atStart _ _ (discipline.onValue ())
      · intro image samePeek
        exact skipSemicolon_of_ne (samePeek ▸ isSemicolon)
      · intro image samePeek
        exact skipSemicolon_of_ne (by rwa [samePeek, discipline.kinds])
  ends := by
    rintro _ _ ⟨⟩
    exact stages.behind_skipSemicolon inside

section

variable {element element' : Parser α}
  (isElement : ∀ {tape : Tape}, stages.inside depth tape →
    Leads Judged element element' tape (stages.inside depth))

include isElement

/-- Elements go side by side if each of them does. -/
theorem moreElements (enough : budget ≤ more) (inside : stages.inside depth tape) :
    Leads Judged (moreElements element budget) (moreElements element' more) tape
      (stages.inside depth) := by
  have atStart {tape : Tape} (inside : stages.inside depth tape) := stages.atStart_of_inside inside
  induction budget generalizing more tape with
  | zero => exact discipline.exhausted (atStart inside) _
  | succ budget ih =>
      obtain ⟨more, rfl⟩ := Nat.exists_eq_add_one_of_ne_zero (Nat.ne_zero_of_lt enough)
      rw [Parser.moreElements, Parser.moreElements]
      apply discipline.peekBind (atStart inside)
      rw [discipline.kinds]
      split
      · next isComma =>
          apply discipline.takeInner (atStart inside) (isComma ▸ rfl)
          intro inside
          apply discipline.bind (isElement inside)
          intro first middle inside
          apply discipline.bind (ih (Nat.le_of_succ_le_succ enough) inside)
          exact fun others after inside => discipline.value _ inside
      · apply discipline.bind (discipline.symbol (by simp) (by simp) inside)
        exact fun _ after inside => discipline.value _ inside

theorem elements (enough : budget ≤ more) (inside : stages.inside depth tape) :
    Leads Judged (elements element budget) (elements element' more) tape (stages.inside depth) := by
  have atStart := stages.atStart_of_inside inside
  rw [Parser.elements, Parser.elements]
  apply discipline.peekBind atStart
  rw [discipline.kinds]
  split
  · next isParen =>
      apply discipline.takeInner atStart (isParen ▸ rfl)
      exact fun inside => discipline.value _ inside
  · apply discipline.bind (isElement inside)
    intro first middle inside
    apply discipline.bind (discipline.moreElements isElement enough inside)
    exact fun others after inside => discipline.value _ inside

end

end Discipline

/-! ## Rules -/

/-- Each of the rules goes side by side with itself, on other tokens and with a larger budget. Where
it succeeds, as many braces are open as before it. -/
structure Rules (stages : Stages) (f : Token → Token) (Judged : Judgement) (budget more : Nat) :
    Prop where
  expression : ∀ level {depth token tape}, stages.Taken depth token tape →
    BeginsWith f Judged token (expression budget level token) (expression more level (f token)) tape
      (stages.inside depth)
  operand : ∀ {depth token tape}, stages.Taken depth token tape →
    BeginsWith f Judged token (operand budget token) (operand more (f token)) tape
      (stages.inside depth)
  extend : ∀ level left {depth tape}, stages.inside depth tape →
    Leads Judged (extend budget level left) (extend more level left) tape (stages.inside depth)
  block : ∀ {depth tape}, stages.atStart (depth + 1) tape →
    Leads Judged (block budget) (block more) tape (stages.inside depth)
  statement : ∀ {depth token tape}, stages.Taken depth token tape →
    BeginsWith f Judged token (statement budget token) (statement more (f token)) tape
      (stages.behind depth)

namespace Rules

variable (rules : Rules stages f Judged budget more)
  (discipline : Discipline stages f takes Judged)

include rules discipline

/-- An expression whose first token has still to be taken. -/
theorem nextExpression (level : Level) (atStart : stages.atStart depth tape) :
    Leads Judged (do Parser.expression budget level (← take))
      (do Parser.expression more level (← take)) tape (stages.inside depth) :=
  discipline.takeBegins atStart (rules.expression level (stages.taken atStart))

theorem nextStatement (atStart : stages.atStart depth tape) :
    Leads Judged (do Parser.statement budget (← take)) (do Parser.statement more (← take)) tape
      (stages.behind depth) :=
  discipline.takeBegins atStart (rules.statement (stages.taken atStart))

theorem nextExpressionBind (level : Level) (inside : stages.inside depth tape)
    {second second' : Expr → Parser α}
    (isSecond : ∀ expr middle, stages.inside depth middle →
      Leads Judged (second expr) (second' expr) middle goal) :
    Leads Judged (take >>= fun token => Parser.expression budget level token >>= second)
      (take >>= fun token => Parser.expression more level token >>= second') tape goal := by
  have atStart := stages.atStart_of_inside inside
  have begins := rules.expression level (stages.taken atStart)
  exact discipline.takeBegins atStart (begins.bind discipline.toCombines isSecond)

/-- A block begins with a brace of its own, which is open in it and not behind it. -/
theorem blockBind (inside : stages.inside depth tape) {second second' : Block → Parser α}
    (isSecond : ∀ stmts middle, stages.inside depth middle →
      Leads Judged (second stmts) (second' stmts) middle goal) :
    Leads Judged (symbol .leftBrace >>= fun _ => Parser.block budget >>= second)
      (symbol .leftBrace >>= fun _ => Parser.block more >>= second') tape goal := by
  apply discipline.bind (discipline.symbol (by simp) (by simp) inside)
  intro _ middle opened
  exact discipline.bind (rules.block (stages.atStart_of_inside opened)) isSecond

theorem expression_succ (level : Level) {token : Token} (taken : stages.Taken depth token tape) :
    BeginsWith f Judged token (Parser.expression (budget + 1) level token)
      (Parser.expression (more + 1) level (f token)) tape (stages.inside depth) := by
  rw [Parser.expression_succ, Parser.expression_succ]
  apply (rules.operand taken).bind discipline.toCombines
  exact fun left middle inside => rules.extend level left inside

theorem operand_succ (enough : budget ≤ more) {token : Token}
    (taken : stages.Taken depth token tape) :
    BeginsWith f Judged token (Parser.operand (budget + 1) token)
      (Parser.operand (more + 1) (f token)) tape (stages.inside depth) := by
  rw [Parser.operand_succ, Parser.operand_succ, discipline.kinds]
  have isInner (starts : token.kind.start ≠ .nothing) := Kind.isInner_of_start starts
  have isInside (starts : token.kind.start ≠ .nothing) := taken.inside (isInner starts)
  generalize token.kind.start = start at isInner isInside
  cases start with
  | ident name => exact .goesOn (isInner (by simp)) (discipline.value _ (isInside (by simp)))
  | int digits =>
      show BeginsWith f Judged token (integer token digits) (integer (f token) digits) tape _
      rw [integer, integer]
      split
      · exact .goesOn (isInner (by simp)) (discipline.value _ (isInside (by simp)))
      · exact .rejects .integerTooLarge (fun _ _ => rfl) rfl rfl
  | bool value => exact .goesOn (isInner (by simp)) (discipline.value _ (isInside (by simp)))
  | prefixOp op =>
      apply BeginsWith.goesOn (isInner (by simp))
      apply rules.nextExpressionBind discipline .prefixOp (isInside (by simp))
      exact fun inner after inside => discipline.value _ inside
  | group =>
      apply BeginsWith.goesOn (isInner (by simp))
      apply rules.nextExpressionBind discipline .lowest (isInside (by simp))
      intro inner middle inside
      apply discipline.bind (discipline.symbol (by simp) (by simp) inside)
      exact fun _ after inside => discipline.value _ inside
  | conditional =>
      apply BeginsWith.goesOn (isInner (by simp))
      apply discipline.bind (discipline.symbol (by simp) (by simp) (isInside (by simp)))
      intro _ middle inside
      apply rules.nextExpressionBind discipline .lowest inside
      intro condition middle inside
      apply discipline.bind (discipline.symbol (by simp) (by simp) inside)
      intro _ middle inside
      apply rules.blockBind discipline inside
      intro consequence middle inside
      have atStart := stages.atStart_of_inside inside
      apply discipline.peekBind atStart
      rw [discipline.kinds]
      split
      · next isElse =>
          apply discipline.takeInner atStart (isElse ▸ rfl)
          intro inside
          apply rules.blockBind discipline inside
          exact fun alternative after inside => discipline.value _ inside
      · exact discipline.value _ inside
  | function =>
      apply BeginsWith.goesOn (isInner (by simp))
      apply discipline.bind (discipline.symbol (by simp) (by simp) (isInside (by simp)))
      intro _ middle inside
      apply discipline.bind (discipline.elements discipline.name enough inside)
      intro parameters middle inside
      apply rules.blockBind discipline inside
      exact fun body after inside => discipline.value _ inside
  | illegal => exact .rejects .illegal (fun _ _ => rfl) rfl rfl
  | nothing => exact .rejects .noOperand (fun _ _ => rfl) rfl rfl

theorem extend_succ (enough : budget ≤ more) (level : Level) (left : Expr)
    (inside : stages.inside depth tape) :
    Leads Judged (Parser.extend (budget + 1) level left) (Parser.extend (more + 1) level left) tape
      (stages.inside depth) := by
  have atStart := stages.atStart_of_inside inside
  rw [Parser.extend, Parser.extend]
  apply discipline.peekBind atStart
  rw [discipline.kinds]
  cases isAbove : tape.peek.kind.continuationAbove? level with
  | none => exact discipline.value left inside
  | some continuation =>
      have isInner := Kind.isInner_of_continuation (Option.filter_eq_some_iff.mp isAbove).1
      cases continuation with
      | operator op =>
          apply discipline.takeInner atStart isInner
          intro inside
          apply rules.nextExpressionBind discipline op.level inside
          exact fun right middle inside => rules.extend level _ inside
      | call =>
          apply discipline.takeInner atStart isInner
          intro inside
          apply discipline.bind (discipline.elements (fun inside => ?_) enough inside)
          · exact fun arguments middle inside => rules.extend level _ inside
          · exact rules.nextExpression discipline .lowest (stages.atStart_of_inside inside)

theorem block_succ (atStart : stages.atStart (depth + 1) tape) :
    Leads Judged (Parser.block (budget + 1)) (Parser.block (more + 1)) tape
      (stages.inside depth) := by
  have taken := stages.taken atStart
  rw [Parser.block, Parser.block]
  by_cases isBrace : tape.peek.kind = .symbol .rightBrace
  · apply discipline.takeBind atStart (discipline.allows _ (by simp [isBrace]) (by simp [isBrace]))
    have closed := taken (by simp [isBrace]) (by simp [isBrace])
    rw [isBrace] at closed
    rw [discipline.kinds, isBrace]
    exact discipline.value [] closed
  · apply discipline.takeBegins atStart
    rw [discipline.kinds]
    split
    · next isOther => exact absurd isOther isBrace
    · exact .rejects (.unexpected (.symbol .rightBrace)) (fun _ _ => rfl) rfl rfl
    · apply (rules.statement taken).bind discipline.toCombines
      intro first middle behind
      apply discipline.bind (rules.block (stages.atStart_of_behind behind))
      exact fun others after inside => discipline.value _ inside

theorem statement_succ {token : Token} (taken : stages.Taken depth token tape) :
    BeginsWith f Judged token (Parser.statement (budget + 1) token)
      (Parser.statement (more + 1) (f token)) tape (stages.behind depth) := by
  have ended (wrap : Expr → Stmt) (value : Expr) (middle : Tape)
      (inside : stages.inside depth middle) :
      Leads Judged (skipSemicolon >>= fun _ => pure (wrap value))
        (skipSemicolon >>= fun _ => pure (wrap value)) middle (stages.behind depth) :=
    discipline.bind (discipline.skipSemicolon inside) fun _ _ behind => discipline.value _ behind
  rw [Parser.statement, Parser.statement, discipline.kinds]
  split
  · next isLet =>
      have isInner : token.kind.isInner = true := by rw [isLet]; rfl
      apply BeginsWith.goesOn isInner
      apply discipline.boundNameBind (taken.inside isInner)
      intro bound middle inside
      exact rules.nextExpressionBind discipline .lowest inside (ended (.letBind bound))
  · next isReturn =>
      have isInner : token.kind.isInner = true := by rw [isReturn]; rfl
      apply BeginsWith.goesOn isInner
      exact rules.nextExpressionBind discipline .lowest (taken.inside isInner) (ended .ret)
  · exact (rules.expression .lowest taken).bind discipline.toCombines (ended .expr)

end Rules

/-- A judgement with laws for the steps of reading holds of all rules and budgets. -/
theorem Discipline.rules (discipline : Discipline stages f takes Judged) (enough : budget ≤ more) :
    Rules stages f Judged budget more := by
  induction budget generalizing more with
  | zero =>
      constructor
      · exact fun _ _ _ _ _ => .exhausted rfl
      · exact fun _ => .exhausted rfl
      · exact fun _ _ _ _ inside => discipline.exhausted (stages.atStart_of_inside inside) _
      · exact fun atStart => discipline.exhausted atStart _
      · exact fun _ => .exhausted rfl
  | succ budget ih =>
      obtain ⟨more, rfl⟩ := Nat.exists_eq_add_one_of_ne_zero (Nat.ne_zero_of_lt enough)
      have enough := Nat.le_of_succ_le_succ enough
      have rules := ih enough
      constructor
      · exact fun level _ _ _ taken => rules.expression_succ discipline level taken
      · exact rules.operand_succ discipline enough
      · exact fun level left _ _ inside => rules.extend_succ discipline enough level left inside
      · exact rules.block_succ discipline
      · exact rules.statement_succ discipline

end

end Parser

end Monkey
