/-
# Reading on behind a closed source

A source is closed if its last token is a semicolon and no brace is open there. Whatever
follows it, reading the source goes on as before. Every rule that has not failed yet
still has the last semicolon before it, for a semicolon ends what comes before it in
every rule but one, and inside a block it cannot be the last: the count of open braces
is exactly the number of blocks that are being read. So no rule looks at what follows,
and skipping a broken statement stops at that semicolon at the latest.
-/

import Mathlib
import Monkey.Proofs.Parse.Recovery
import Monkey.Proofs.Token.Append

namespace Monkey

/-- One result after the other. -/
def Parsed.append (first second : Parsed) : Parsed :=
  ⟨first.program ++ second.program, first.diagnostics ++ second.diagnostics⟩

namespace Tape

/-- The tape with other tokens behind its own. -/
def append (tape : Tape) (more : List Token) (finish : Nat) : Tape :=
  { tape with ahead := tape.ahead ++ more, finish := finish }

/-- The tokens end with a semicolon outside of every brace. It may have been taken already. -/
structure Closed (tape : Tape) : Prop where
  semicolon :
    (tape.last.toList ++ tape.ahead).getLast?.map Token.kind = some (.symbol .semicolon)
  outside : (tape.ahead.map Token.kind).foldl depthAfter tape.depth = 0

/-- The last semicolon is still ahead, and so many braces are open. -/
structure Unfinished (depth : Nat) (tape : Tape) : Prop where
  closed : tape.Closed
  notEnd : tape.ahead ≠ []
  isDepth : tape.depth = depth

variable {tape : Tape} {depth : Nat}

theorem peek_append (notEnd : tape.ahead ≠ []) (more : List Token) (finish : Nat) :
    (tape.append more finish).peek = tape.peek := by
  obtain ⟨token, tokens, isAhead⟩ := List.exists_cons_of_ne_nil notEnd
  rw [peek, peek, append, isAhead]
  rfl

theorem take_append (notEnd : tape.ahead ≠ []) (more : List Token) (finish : Nat) :
    (tape.append more finish).take = tape.take.append more finish := by
  have samePeek := peek_append notEnd more finish
  rw [take, take, samePeek, append, append, List.tail_append_of_ne_nil notEnd]

/-- Inside a brace the last semicolon is still to come. -/
theorem Closed.notEnd (closed : tape.Closed) (inside : tape.depth ≠ 0) : tape.ahead ≠ [] := by
  intro atEnd
  have outside := closed.outside
  rw [atEnd] at outside
  exact inside outside

theorem Closed.unfinished (closed : tape.Closed) (inside : tape.depth ≠ 0) :
    tape.Unfinished tape.depth :=
  ⟨closed, closed.notEnd inside, rfl⟩

/-- Taking a token leaves the last one where it is. -/
theorem Closed.take (closed : tape.Closed) (notEnd : tape.ahead ≠ []) : tape.take.Closed := by
  obtain ⟨token, tokens, isAhead⟩ := List.exists_cons_of_ne_nil notEnd
  have semicolon := closed.semicolon
  have outside := closed.outside
  rw [isAhead] at semicolon outside
  have isPeek : tape.peek = token := by rw [peek, isAhead]; rfl
  constructor
  · rw [Tape.take, isPeek, isAhead]
    rw [List.getLast?_append, List.getLast?_cons, Option.some_or] at semicolon
    show ((token :: tokens).getLast?).map Token.kind = _
    rw [List.getLast?_cons]
    exact semicolon
  · rw [Tape.take, isPeek, isAhead]
    exact outside

namespace Unfinished

variable (unfinished : tape.Unfinished depth)

include unfinished

theorem depth_take : tape.take.depth = depthAfter depth tape.peek.kind :=
  congrArg (fun depth => depthAfter depth tape.peek.kind) unfinished.isDepth

/-- Only a semicolon can be the last token. -/
theorem take (notSemicolon : tape.peek.kind ≠ .symbol .semicolon) :
    tape.take.Unfinished (depthAfter depth tape.peek.kind) := by
  have closed := unfinished.closed.take unfinished.notEnd
  refine ⟨closed, fun atEnd => notSemicolon ?_, unfinished.depth_take⟩
  have semicolon := closed.semicolon
  rw [atEnd] at semicolon
  exact Option.some.inj semicolon

theorem skipSemicolon (more : List Token) (finish : Nat) :
    (tape.append more finish).skipSemicolon = tape.skipSemicolon.append more finish ∧
      tape.skipSemicolon.Closed ∧ tape.skipSemicolon.depth = depth := by
  have notEnd := unfinished.notEnd
  by_cases isSemicolon : tape.peek.kind = .symbol .semicolon
  · have isDepth := unfinished.depth_take
    rw [isSemicolon] at isDepth
    rw [Tape.skipSemicolon, Tape.skipSemicolon, peek_append notEnd, take_append notEnd,
      if_pos isSemicolon, if_pos isSemicolon]
    exact ⟨rfl, unfinished.closed.take notEnd, isDepth⟩
  · rw [Tape.skipSemicolon, Tape.skipSemicolon, peek_append notEnd, if_neg isSemicolon,
      if_neg isSemicolon]
    exact ⟨rfl, unfinished.closed, unfinished.isDepth⟩

end Unfinished

end Tape

namespace Parser

variable {α β : Type} {more : List Token} {finish depth : Nat} {tape : Tape}

/-- In a closed source the last semicolon is still to come as long as a statement is being read.
Behind a statement it may have been taken. -/
def Stages.closed : Stages where
  atStart := Tape.Unfinished
  inside := Tape.Unfinished
  behind depth tape := tape.Closed ∧ tape.depth = depth
  atStart_of_inside := id
  inside_take unfinished _ := unfinished.take
  behind_skipSemicolon {_ tape} unfinished := (unfinished.skipSemicolon tape.ahead tape.finish).2
  atStart_of_behind ends := ends.2 ▸ ends.1.unfinished (by omega)

/-- The rule ends alike with other tokens behind, and it stops before them. -/
def Agrees (more : List Token) (finish : Nat) : Judgement := fun _ first _ tape =>
  match first tape with
  | .ok result after => first (tape.append more finish) = .ok result (after.append more finish)
  | .error stop stopped =>
    first (tape.append more finish) = .error stop (stopped.append more finish) ∧ stopped.Closed

namespace Agrees

theorem bind {first first' : Parser α} {second second' : α → Parser β}
    (isFirst : Agrees more finish first first' tape)
    (isSecond : ∀ result middle, first tape = .ok result middle →
      Agrees more finish (second result) (second' result) middle) :
    Agrees more finish (first >>= second) (first' >>= second') tape := by
  rw [Agrees] at isFirst
  cases reached : first tape with
  | ok result middle =>
      rw [reached] at isFirst
      have agrees := isSecond result middle reached
      rw [Agrees, bind_of_ok reached, bind_of_ok isFirst]
      exact agrees
  | error stop stopped =>
      rw [reached] at isFirst
      rw [Agrees, bind_of_error reached, bind_of_error isFirst.1]
      exact ⟨rfl, isFirst.2⟩

/-- The next token is one of the closed source. -/
theorem congr {first first' other other' : Parser α} (unfinished : tape.Unfinished depth)
    (same : ∀ image : Tape, image.peek = tape.peek → first image = other image)
    (agrees : Agrees more finish other other' tape) : Agrees more finish first first' tape := by
  rw [Agrees] at agrees ⊢
  rw [same tape rfl, same _ (Tape.peek_append unfinished.notEnd more finish)]
  exact agrees

theorem take {second second' : Token → Parser α} (unfinished : tape.Unfinished depth)
    (agrees : Agrees more finish (second tape.peek) (second' tape.peek) tape.take) :
    Agrees more finish (Parser.take >>= second) (Parser.take >>= second') tape := by
  have notEnd := unfinished.notEnd
  rw [Agrees, take_bind, take_bind, Tape.peek_append notEnd, Tape.take_append notEnd]
  exact agrees

variable (more finish)

theorem combines : Combines .closed id (fun _ => True) (Agrees more finish) where
  kinds _ := rfl
  onValue _ := rfl
  onBind := bind
  congr unfinished same _ := congr unfinished same
  onTake unfinished _ := take unfinished
  onReject unfinished _ := ⟨rfl, unfinished.closed⟩

theorem discipline : Discipline .closed id (fun _ => True) (Agrees more finish) := by
  have taken {depth : Nat} {tape : Tape} (unfinished : tape.Unfinished depth) : tape.take.Closed :=
    unfinished.closed.take unfinished.notEnd
  apply (combines more finish).discipline (fun _ => trivial)
  · exact fun unfinished _ => ⟨⟨rfl, unfinished.closed⟩, ⟨rfl, taken unfinished⟩⟩
  · exact fun unfinished _ => ⟨rfl, taken unfinished⟩

end Agrees

end Parser

namespace Tape

variable {tape : Tape}

/-- A broken statement ends outside of every brace. -/
theorem depth_of_boundary (isBoundary : tape.atBoundary = true) : tape.depth = 0 := by
  rw [atBoundary] at isBoundary
  split at isBoundary
  · exact eq_of_beq isBoundary
  · exact eq_of_beq (Bool.and_eq_true_iff.mp isBoundary).1
  · cases isBoundary

/-- At the end of a closed source the last semicolon has been taken. -/
theorem Closed.lastKind (closed : tape.Closed) (atEnd : tape.ahead = []) :
    tape.last.map Token.kind = some (.symbol .semicolon) := by
  have semicolon := closed.semicolon
  rw [atEnd, List.append_nil] at semicolon
  cases isLast : tape.last with
  | none =>
      rw [isLast] at semicolon
      cases semicolon
  | some token =>
      rw [isLast] at semicolon
      exact semicolon

theorem Closed.atBoundary (closed : tape.Closed) (atEnd : tape.ahead = []) :
    tape.atBoundary = true := by
  have outside := closed.outside
  rw [atEnd] at outside
  rw [Tape.atBoundary, closed.lastKind atEnd]
  exact beq_iff_eq.mpr outside

theorem Closed.atBoundary_append (closed : tape.Closed) (more : List Token) (finish : Nat) :
    (tape.append more finish).atBoundary = tape.atBoundary := by
  have sameLast : (tape.append more finish).last = tape.last := rfl
  by_cases atEnd : tape.ahead = []
  · rw [Tape.atBoundary, Tape.atBoundary, sameLast, closed.lastKind atEnd]
    rfl
  · rw [Tape.atBoundary, Tape.atBoundary, sameLast, goesOn, goesOn, peek_append atEnd]
    rfl

/-- Skipping stops at the last semicolon at the latest, outside of every brace. -/
theorem Closed.recover (closed : tape.Closed) (more : List Token) (finish : Nat) :
    (tape.append more finish).recover = tape.recover.append more finish ∧
      tape.recover.Closed ∧ tape.recover.depth = 0 := by
  have sameBoundary := closed.atBoundary_append more finish
  induction tape using Tape.recover.induct with
  | case1 tape isBoundary isBrace =>
      have isDepth := depth_of_boundary isBoundary
      have notEnd : tape.ahead ≠ [] := by
        intro atEnd
        rw [closed.lastKind atEnd] at isBrace
        cases isBrace
      have unfinished : tape.Unfinished 0 := ⟨closed, notEnd, isDepth⟩
      have sameBrace : (tape.append more finish).last.map Token.kind =
          some (.symbol .rightBrace) := isBrace
      rw [recover_of_boundary isBoundary, if_pos isBrace,
        recover_of_boundary (sameBoundary.trans isBoundary), if_pos sameBrace]
      exact unfinished.skipSemicolon more finish
  | case2 tape isBoundary notBrace =>
      rw [recover_of_boundary isBoundary, if_neg notBrace,
        recover_of_boundary (sameBoundary.trans isBoundary)]
      exact ⟨if_neg notBrace, closed, depth_of_boundary isBoundary⟩
  | case3 tape notBoundary atEnd => exact absurd (closed.atBoundary atEnd) notBoundary
  | case4 tape notBoundary notEnd ih =>
      have taken := closed.take notEnd
      have more_ne : (tape.append more finish).ahead ≠ [] := by simp [append, notEnd]
      rw [recover_of_next notBoundary notEnd,
        recover_of_next (sameBoundary ▸ notBoundary) more_ne, take_append notEnd]
      exact ih taken (taken.atBoundary_append more finish)

/-- The budget of a longer tape is enough for the next statement. -/
theorem statement_append (tape : Tape) (more : List Token) (finish : Nat) :
    (do Parser.statement (tape.append more finish).budget (← Parser.take)) tape =
      Parser.statement tape.budget tape.peek tape.take := by
  apply Parser.statement_eq_of_le
  rw [budget, budget, append, List.length_append]
  omega

/-- What follows a closed source makes no difference to its next statement. -/
theorem Unfinished.statement {depth : Nat} (unfinished : tape.Unfinished depth) (more : List Token)
    (finish : Nat) :
    let next := do Parser.statement (tape.append more finish).budget (← Parser.take)
    Parser.Leads (Parser.Agrees more finish) next next tape fun after =>
      after.Closed ∧ after.depth = depth := by
  have discipline := Parser.Agrees.discipline more finish
  have rules := discipline.rules (Nat.le_refl (tape.append more finish).budget)
  exact rules.nextStatement discipline unfinished

/-- Where a closed source ends, what follows it is read as if it stood alone. -/
theorem Closed.parse_append (closed : tape.Closed) (outside : tape.depth = 0)
    (more : List Token) (finish : Nat) :
    (tape.append more finish).parse =
      tape.parse.append (⟨none, more, finish, 0⟩ : Tape).parse := by
  induction tape using parse_induction with
  | atEnd tape isEnd =>
      rw [parse_of_end isEnd, append, isEnd, outside]
      exact parse_eq_of_last ⟨none, more, finish, 0⟩ tape.last
  | sound tape stmt after nonempty isOk isParsed ih =>
      have notEnd : (tape.append more finish).ahead ≠ [] := by simp [append, nonempty]
      have leads := Unfinished.statement ⟨closed, nonempty, outside⟩ more finish
      have agrees := leads.judged
      rw [Parser.Agrees, tape.statement_append more finish, isOk] at agrees
      obtain ⟨closedAfter, outsideAfter⟩ :=
        leads.ends stmt after ((tape.statement_append more finish).trans isOk)
      rw [parse_of_ok notEnd agrees, isParsed, ih closedAfter outsideAfter]
      rfl
  | broken tape diagnostic stopped nonempty isError isParsed ih =>
      have notEnd : (tape.append more finish).ahead ≠ [] := by simp [append, nonempty]
      have agrees := (Unfinished.statement ⟨closed, nonempty, outside⟩ more finish).judged
      rw [Parser.Agrees, tape.statement_append more finish, isError] at agrees
      obtain ⟨same, closedStopped⟩ := agrees
      obtain ⟨sameRecovery, closedAfter, outsideAfter⟩ := closedStopped.recover more finish
      rw [parse_of_error notEnd same, sameRecovery, isParsed, ih closedAfter outsideAfter]
      rfl

end Tape

/-- The last token of a closed source is a semicolon. -/
theorem Tape.Closed.ends {text : String} (closed : (Tape.ofCursor (.ofText text)).Closed) :
    ∀ token ∈ (Cursor.ofText text).words.getLast?, token.kind = .symbol .semicolon := by
  intro token isLast
  have semicolon : (Cursor.ofText text).words.getLast?.map Token.kind =
      some (.symbol .semicolon) := closed.semicolon
  rw [Option.mem_def.mp isLast] at semicolon
  exact Option.some.inj semicolon

/-- A text behind a closed source is read as if it stood alone, at its own place. -/
theorem parse_append_of_closed {first second : String}
    (closed : (Tape.ofCursor (.ofText first)).Closed) :
    parse (first ++ second) =
      (parse first).append ((parse second).map (Token.shift first.utf8ByteSize)) := by
  have kinds (token : Token) : (token.shift first.utf8ByteSize).kind = token.kind := rfl
  have isTape : Tape.ofCursor (.ofText (first ++ second)) =
      (Tape.ofCursor (.ofText first)).append
        ((Cursor.ofText second).words.map (Token.shift first.utf8ByteSize))
        (first ++ second).utf8ByteSize := by
    rw [Tape.ofCursor, Cursor.words_ofText_append closed.ends, Cursor.finish_ofText]
    rfl
  have related : Tape.Image (Token.shift first.utf8ByteSize) (Tape.ofCursor (.ofText second))
      ⟨none, (Cursor.ofText second).words.map (Token.shift first.utf8ByteSize),
        (first ++ second).utf8ByteSize, 0⟩ := by
    refine ⟨rfl, rfl, ?_, rfl⟩
    have moved : second.utf8ByteSize + first.utf8ByteSize = (first ++ second).utf8ByteSize := by
      rw [String.utf8ByteSize_append, Nat.add_comm]
    rw [Tape.ofCursor, Cursor.finish_ofText, Token.shift, moved]
  rw [parse, Cursor.parse, isTape, closed.parse_append rfl, related.parse kinds]
  rfl

/-- Recovery is complete at every semicolon outside of all braces. -/
theorem parse_append_of_semicolon {first second : String}
    (semicolon : (Cursor.ofText first).words.getLast?.map Token.kind = some (.symbol .semicolon))
    (outside : ((Cursor.ofText first).words.map Token.kind).foldl Tape.depthAfter 0 = 0) :
    parse (first ++ second) =
      ⟨(parse first).program ++ (parse second).program,
        (parse first).diagnostics ++
          (parse second).diagnostics.map (Diagnostic.map (Token.shift first.utf8ByteSize))⟩ := by
  have closed : (Tape.ofCursor (.ofText first)).Closed := ⟨semicolon, outside⟩
  rw [parse_append_of_closed closed, Parsed.append, Parsed.map]

/-- A broken statement does not spoil the next one, and what is wrong there is told at its own
place. -/
theorem parse_broken_let_append :
    parse ("let 1;" ++ "2)") =
      ⟨[.expr (.int 2)],
        [.unexpected .identifier ⟨.int "1", 4, 5⟩, .noOperand ⟨.symbol .rightParen, 7, 8⟩]⟩ := by
  rw [parse_append_of_semicolon (by cbv) (by cbv)]
  cbv

end Monkey
