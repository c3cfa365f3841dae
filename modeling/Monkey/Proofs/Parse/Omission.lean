/-
# A statement with a sign left out

A binding without its sign of equality breaks the statement around it, wherever in that
statement it stands. The rest of the statement is skipped, but skipping knows only the braces
that are open and the next token. A block that ends outside of every brace may be an argument
or a part of a group, and the comma or the parenthesis behind it does not look like a part of the
statement that is being skipped. There skipping ends too early, and one mistake is told twice.
Where no block ends like this, it is told once.
-/

import Mathlib
import Monkey.Proofs.Grammar.Completeness
import Monkey.Proofs.Grammar.Undivided
import Monkey.Proofs.Parse.Assignments
import Monkey.Proofs.Parse.Continuation

namespace Monkey

open Grammar

/-- A token that closes or separates what is in parentheses. No statement begins with it. -/
def Kind.IsStray (kind : Kind) : Prop :=
  kind = .symbol .comma ∨ kind = .symbol .rightParen

namespace Kind.IsStray

variable {kind : Kind} (isStray : kind.IsStray)

include isStray

theorem ne_semicolon : kind ≠ .symbol .semicolon := by
  rcases isStray with rfl | rfl <;> simp

theorem ne_keyword (word : Keyword) : kind ≠ .keyword word := by
  rcases isStray with rfl | rfl <;> simp

theorem ne_eof : kind ≠ .eof := by
  rcases isStray with rfl | rfl <;> simp

theorem start : kind.start = .nothing := by
  rcases isStray with rfl | rfl <;> rfl

end Kind.IsStray

/-- With so many braces open before the tokens, one of their blocks ends outside of every brace, and
a stray token stands behind it. -/
def EndsEarly (depth : Nat) (kinds : List Kind) : Prop :=
  ∃ inside next behind, kinds = inside ++ .symbol .rightBrace :: next :: behind ∧
    (inside ++ [.symbol .rightBrace]).foldl Tape.depthAfter depth = 0 ∧ next.IsStray

theorem endsEarly_cons {depth : Nat} {kind : Kind} {others : List Kind} :
    EndsEarly depth (kind :: others) ↔
      (kind = .symbol .rightBrace ∧ Tape.depthAfter depth kind = 0 ∧
        ∃ next ∈ others.head?, next.IsStray) ∨
      EndsEarly (Tape.depthAfter depth kind) others := by
  constructor
  · rintro ⟨inside, next, behind, isSplit, outside, isStray⟩
    cases inside with
    | nil =>
        obtain ⟨rfl, rfl⟩ := List.cons.inj isSplit
        exact Or.inl ⟨rfl, outside, next, rfl, isStray⟩
    | cons first inside =>
        obtain ⟨rfl, rfl⟩ := List.cons.inj isSplit
        exact Or.inr ⟨inside, next, behind, rfl, outside, isStray⟩
  · rintro (⟨rfl, outside, next, isNext, isStray⟩ | ⟨inside, next, behind, rfl, outside, isStray⟩)
    · obtain ⟨behind, rfl⟩ := List.head?_eq_some_iff.mp isNext
      exact ⟨[], next, behind, rfl, outside, isStray⟩
    · exact ⟨kind :: inside, next, behind, rfl, outside, isStray⟩

theorem not_endsEarly_nil {depth : Nat} : ¬ EndsEarly depth [] := by
  rintro ⟨inside, next, behind, isSplit, -⟩
  simp at isSplit

/-- Behind the last token there is nothing. -/
theorem not_endsEarly_single {depth : Nat} {kind : Kind} : ¬ EndsEarly depth [kind] := by
  rw [endsEarly_cons]
  rintro (⟨-, -, _, ⟨⟩, -⟩ | early)
  exact not_endsEarly_nil early

instance (kind : Kind) : Decidable kind.IsStray := inferInstanceAs (Decidable (_ ∨ _))

instance decidableEndsEarly (depth : Nat) (kinds : List Kind) : Decidable (EndsEarly depth kinds) :=
  match kinds with
  | [] => isFalse not_endsEarly_nil
  | kind :: others =>
    have := decidableEndsEarly (Tape.depthAfter depth kind) others
    decidable_of_iff _ endsEarly_cons.symm

/-- An operand does not begin with a token that begins nothing. -/
theorem Parser.operand_of_nothing {budget : Nat} {token : Token} {tape : Tape}
    (starts : token.kind.start = .nothing) :
    operand (budget + 1) token tape = .error (.rejected (.noOperand token)) tape := by
  rw [operand_succ, starts]
  rfl

namespace Tape

variable {tape : Tape}

/-- Whether a broken statement ends with the next token. -/
theorem atBoundary_take : tape.take.atBoundary = true ↔
    depthAfter tape.depth tape.peek.kind = 0 ∧
      (tape.peek.kind = .symbol .semicolon ∨
        tape.peek.kind = .symbol .rightBrace ∧ tape.take.goesOn = false) := by
  have isLast : tape.take.last.map Token.kind = some tape.peek.kind := rfl
  have isDepth : tape.take.depth = depthAfter tape.depth tape.peek.kind := rfl
  rw [atBoundary, isLast, isDepth]
  split
  · next isSemicolon => simp [Option.some.inj isSemicolon]
  · next isBrace => simp [Option.some.inj isBrace]
  · next notSemicolon notBrace =>
      simp only [Bool.false_eq_true, false_iff]
      rintro ⟨-, isSemicolon | ⟨isBrace, -⟩⟩
      · exact notSemicolon (congrArg some isSemicolon)
      · exact notBrace (congrArg some isBrace)

/-- Of what can stand behind a block only a stray token does not go on with the statement. -/
theorem isStray_of_follows (follows : Follows tape.peek.kind) (ends : tape.goesOn = false) :
    tape.peek.kind.IsStray := by
  rw [goesOn, Bool.or_eq_false_iff] at ends
  obtain ⟨notElse, notContinues⟩ := ends
  generalize tape.peek.kind = kind at follows notElse notContinues ⊢
  cases follows with
  | elseWord => cases notElse
  | continues isNext =>
      have isNone := Option.isNone_iff_eq_none.mp (Option.isSome_eq_false_iff.mp notContinues)
      exact absurd isNext (Kind.continuation?_eq_none.mp isNone)
  | comma => exact Or.inl rfl
  | rightParen => exact Or.inr rfl

theorem goesOn_of_stray (isStray : tape.peek.kind.IsStray) : tape.goesOn = false := by
  rw [goesOn]
  generalize tape.peek.kind = kind at isStray
  rcases isStray with rfl | rfl <;> rfl

theorem skipSemicolon_of_stray (isStray : tape.peek.kind.IsStray) : tape.skipSemicolon = tape :=
  if_neg isStray.ne_semicolon

theorem ahead_ne_nil {kind : Kind} {others : List Kind} (isKinds : tape.kinds = kind :: others) :
    tape.ahead ≠ [] := by
  intro atEnd
  rw [Tape.kinds, atEnd] at isKinds
  cases isKinds

/-- The semicolon of a statement is skipped with it. -/
theorem recover_of_semicolon (isKinds : tape.kinds = [.symbol .semicolon])
    (outside : tape.depth = 0) (notBoundary : ¬ tape.atBoundary = true) :
    tape.recover.ahead = [] := by
  obtain ⟨isPeek, isRest⟩ := peek_of_kinds isKinds
  have isBoundary : tape.take.atBoundary = true := by
    rw [atBoundary_take, isPeek]
    exact ⟨outside, Or.inl rfl⟩
  have notBrace : ¬ tape.take.last.map Token.kind = some (.symbol .rightBrace) := by
    show ¬ some tape.peek.kind = _
    simp [isPeek]
  rw [recover_of_next notBoundary (ahead_ne_nil isKinds),
    recover_of_boundary isBoundary, if_neg notBrace]
  exact List.map_eq_nil_iff.mp isRest

/-- The rest of a statement is skipped to the end if no block ends early in it, and to a stray
token otherwise. -/
theorem recover_of_undivided {kinds : List Kind}
    (isKinds : tape.kinds = kinds ++ [.symbol .semicolon])
    (undivided : Undivided tape.depth kinds)
    (outside : kinds.foldl depthAfter tape.depth = 0) (notBoundary : ¬ tape.atBoundary = true) :
    (EndsEarly tape.depth tape.kinds ∧ tape.recover.peek.kind.IsStray) ∨
      (¬ EndsEarly tape.depth tape.kinds ∧ tape.recover.ahead = []) := by
  induction kinds generalizing tape with
  | nil =>
      rw [isKinds]
      exact Or.inr ⟨not_endsEarly_single, recover_of_semicolon isKinds outside notBoundary⟩
  | cons kind others ih =>
      rw [List.cons_append] at isKinds
      obtain ⟨isPeek, isRest⟩ := peek_of_kinds isKinds
      obtain ⟨ends, areOthers⟩ := undivided
      rw [recover_of_next notBoundary (ahead_ne_nil isKinds), isKinds, endsEarly_cons]
      by_cases isBoundary : tape.take.atBoundary = true
      · obtain ⟨atZero, isEnd⟩ := atBoundary_take.mp isBoundary
        rw [isPeek] at atZero isEnd
        obtain ⟨notSemicolon, followed⟩ := ends atZero
        obtain ⟨rfl, stops⟩ := isEnd.resolve_left notSemicolon
        have isBrace : tape.take.last.map Token.kind = some (.symbol .rightBrace) :=
          congrArg some isPeek
        rw [recover_of_boundary isBoundary, if_pos isBrace]
        cases others with
        | nil =>
            obtain ⟨isNext, isEnd⟩ := peek_of_kinds isRest
            rw [skipSemicolon, if_pos isNext]
            refine Or.inr ⟨?_, List.map_eq_nil_iff.mp isEnd⟩
            rintro (⟨-, -, _, ⟨⟩, isStray⟩ | early)
            · exact isStray.ne_semicolon rfl
            · exact not_endsEarly_single early
        | cons next others =>
            obtain ⟨isNext, -⟩ := peek_of_kinds isRest
            have follows : Follows tape.take.peek.kind := isNext ▸ followed rfl next rfl
            have isStray := isStray_of_follows follows stops
            rw [skipSemicolon_of_stray isStray]
            exact Or.inl ⟨Or.inl ⟨rfl, atZero, next, rfl, isNext ▸ isStray⟩, isStray⟩
      · have notHere : ¬ (kind = .symbol .rightBrace ∧ depthAfter tape.depth kind = 0 ∧
            ∃ next ∈ (others ++ [Kind.symbol .semicolon]).head?, next.IsStray) := by
          rintro ⟨isBrace, atZero, next, isNext, isStray⟩
          rw [← isRest] at isNext
          rw [← peek_kind_of_mem_head? isNext] at isStray
          rw [← isPeek] at isBrace atZero
          exact isBoundary (atBoundary_take.mpr ⟨atZero, Or.inr ⟨isBrace, goesOn_of_stray isStray⟩⟩)
        have isDepth : depthAfter tape.depth kind = tape.take.depth := by
          rw [← isPeek]
          rfl
        rw [isDepth] at areOthers
        rw [List.foldl_cons, isDepth] at outside
        rw [or_iff_right notHere, isDepth, ← isRest]
        exact ih isRest areOthers outside isBoundary

/-- No statement begins with a stray token. -/
theorem parse_of_stray (isStray : tape.peek.kind.IsStray) :
    ∃ others, tape.parse.diagnostics = .noOperand tape.peek :: others := by
  have notEnd : tape.ahead ≠ [] := by
    rw [ahead_eq_cons isStray.ne_eof]
    exact List.cons_ne_nil _ _
  obtain ⟨budget, isBudget⟩ : ∃ budget, tape.budget = budget + 3 := ⟨_, rfl⟩
  have isError : Parser.statement tape.budget tape.peek tape.take =
      .error (.rejected (.noOperand tape.peek)) tape.take := by
    rw [isBudget, Parser.statement_of_operand _ (isStray.ne_keyword _) (isStray.ne_keyword _)
      (Parser.operand_of_nothing isStray.start)]
  exact ⟨_, congrArg Parsed.diagnostics (parse_of_error notEnd isError)⟩

/-- What is told of the rest of a statement that is skipped. -/
theorem parse_recover_of_undivided {kinds : List Kind}
    (isKinds : tape.kinds = kinds ++ [.symbol .semicolon])
    (undivided : Undivided tape.depth kinds)
    (outside : kinds.foldl depthAfter tape.depth = 0) (notBoundary : ¬ tape.atBoundary = true) :
    (¬ EndsEarly tape.depth tape.kinds → tape.recover.parse = ⟨[], []⟩) ∧
    (EndsEarly tape.depth tape.kinds → ∃ stray others, stray.kind.IsStray ∧
      tape.recover.parse.diagnostics = .noOperand stray :: others) := by
  rcases recover_of_undivided isKinds undivided outside notBoundary with
    ⟨early, isStray⟩ | ⟨notEarly, atEnd⟩
  · refine ⟨fun notEarly => absurd early notEarly, fun _ => ?_⟩
    obtain ⟨others, isTold⟩ := parse_of_stray isStray
    exact ⟨_, others, isStray, isTold⟩
  · exact ⟨fun _ => parse_of_end atEnd, fun early => absurd early notEarly⟩

/-- Behind a name a broken statement does not end. -/
theorem not_atBoundary_of_ident (tape : Tape) {passed : List Token} {front : List Kind}
    {bound : String} (isPassed : passed.map Token.kind = front ++ [.ident bound])
    (ahead : List Token) :
    ¬ (tape.past passed ahead).atBoundary = true := by
  have isLast : (tape.past passed ahead).last.map Token.kind = some (.ident bound) := by
    have isEnd := congrArg List.getLast? isPassed
    rw [List.getLast?_map, List.getLast?_concat] at isEnd
    obtain ⟨token, isToken, isKind⟩ := Option.map_eq_some_iff.mp isEnd
    rw [past, isToken]
    exact congrArg some isKind
  rw [atBoundary, isLast]
  exact Bool.false_ne_true

/-- A statement that ends with a semicolon and has lost the sign of equality behind a name. It is
told to need that sign there. A stray token is told as well if a block ends early, and nothing
else otherwise. -/
theorem parse_of_omission {passed ahead : List Token} {front inner : List Kind} {bound : String}
    {stmt : Stmt} (isAhead : tape.ahead = passed ++ ahead)
    (isPassed : passed.map Token.kind = front ++ [.ident bound])
    (isBehind : ahead.map Token.kind = inner ++ [.symbol .semicolon]) (outside : tape.depth = 0)
    (isProgram : IsProgram (front ++ [Kind.ident bound] ++ [Kind.symbol .assign] ++
      (inner ++ [Kind.symbol .semicolon])) [stmt]) :
    (¬ EndsEarly (front.foldl depthAfter 0) (ahead.map Token.kind) →
      tape.parse = ⟨[], [.unexpected (.symbol .assign) (tape.past passed ahead).peek]⟩) ∧
    (EndsEarly (front.foldl depthAfter 0) (ahead.map Token.kind) →
      ∃ stray others, stray.kind.IsStray ∧ tape.parse.diagnostics =
        .unexpected (.symbol .assign) (tape.past passed ahead).peek ::
          .noOperand stray :: others) := by
  -- the statement as it was, with a sign that comes from nowhere
  let sign : Token := ⟨.symbol .assign, 0, 0⟩
  have isWhole : (tape.facing (passed ++ sign :: ahead)).kinds =
      front ++ [Kind.ident bound] ++ [Kind.symbol .assign] ++
        (inner ++ [Kind.symbol .semicolon]) := by
    simp [kinds, facing, isPassed, isBehind, sign]
  have isParsed : (tape.facing (passed ++ sign :: ahead)).parse = ⟨[stmt], []⟩ :=
    parse_of_isProgram (isWhole ▸ isProgram)
  have isRead : tape.parse = _ := isAhead ▸ parse_facing_without_sign isParsed rfl
  -- the name opens and closes no braces, and neither does the sign
  have isDepth : (tape.past passed ahead).depth = front.foldl depthAfter 0 := by
    rw [past, isPassed, outside, List.foldl_append]
    rfl
  obtain ⟨undivided, closes⟩ := isProgram.undivided_behind
  rw [List.foldl_append, List.foldl_append] at undivided closes
  have notBoundary := tape.not_atBoundary_of_ident isPassed ahead
  have isKinds : (tape.past passed ahead).kinds = ahead.map Token.kind := rfl
  rw [← isKinds] at isBehind
  obtain ⟨once, twice⟩ := parse_recover_of_undivided isBehind (isDepth ▸ undivided)
    (isDepth ▸ closes) notBoundary
  rw [isRead, ← isDepth, ← isKinds]
  refine ⟨fun notEarly => ?_, fun early => ?_⟩
  · rw [once notEarly]
    rfl
  · obtain ⟨stray, others, isStray, isTold⟩ := twice early
    exact ⟨stray, others, isStray, congrArg _ isTold⟩

end Tape

/-- What comes last is behind another token. -/
theorem getLast?_of_append {first second : List Kind} {kind other : Kind}
    (isLast : (first ++ [other] ++ second).getLast? = some kind) (differs : other ≠ kind) :
    second.getLast? = some kind := by
  rw [List.getLast?_append, List.getLast?_concat] at isLast
  cases isSecond : second.getLast? with
  | none =>
      rw [isSecond] at isLast
      exact absurd (Option.some.inj isLast) differs
  | some last =>
      rw [isSecond] at isLast
      exact isLast

/-- The next token behind others of a text has the same number with more text behind. -/
theorem Cursor.tokens_append_getElem? {first : String} {passed ahead : List Token}
    (closed : (Tape.ofCursor (ofText first)).Closed)
    (isWords : (ofText first).words = passed ++ ahead) (notEnd : ahead ≠ []) (second : String) :
    (ofText (first ++ second)).tokens[passed.length]? =
      some ((Tape.ofCursor (ofText first)).past passed ahead).peek := by
  obtain ⟨token, others, rfl⟩ := List.exists_cons_of_ne_nil notEnd
  rw [tokens, words_ofText_append closed.ends, isWords, List.append_assoc, List.append_assoc,
    List.getElem?_append_right (Nat.le_refl _), Nat.sub_self]
  rfl

/-- A source without its sign is as closed as it was before. -/
theorem closed_of_omission {broken : String} {front inner : List Kind} {program : Program}
    (isHalf : (Cursor.ofText broken).words.map Token.kind =
      front ++ (inner ++ [Kind.symbol .semicolon]))
    (isProgram : IsProgram (front ++ [Kind.symbol .assign] ++
      (inner ++ [Kind.symbol .semicolon])) program) :
    (Tape.ofCursor (.ofText broken)).Closed where
  semicolon := by
    show (Cursor.ofText broken).words.getLast?.map Token.kind = _
    rw [← List.getLast?_map, isHalf, ← List.append_assoc]
    exact List.getLast?_concat
  outside := by
    have noBrace : (front ++ [Kind.symbol .assign]).foldl Tape.depthAfter 0 =
        front.foldl Tape.depthAfter 0 := List.foldl_append
    have matched := isProgram.bracesMatch 0
    rw [List.foldl_append, noBrace, ← List.foldl_append, ← isHalf] at matched
    exact matched

/-- A statement is broken by leaving out the sign of equality of a binding in it, and other text
follows. The first diagnostic asks for the sign at the token behind the name. It is the only one,
and what follows is read as if it stood alone, unless skipping ends early: then a stray
token is told as well. -/
theorem parse_without_assign {source broken rest : String} {front back : List Kind}
    {name : String} {stmt : Stmt}
    (isSource : (Cursor.ofText source).words.map Token.kind =
      front ++ .keyword .letWord :: .ident name :: .symbol .assign :: back)
    (isBroken : (Cursor.ofText broken).words.map Token.kind =
      front ++ .keyword .letWord :: .ident name :: back)
    (isParsed : parse source = ⟨[stmt], []⟩)
    (semicolon : (Cursor.ofText source).words.getLast?.map Token.kind = some (.symbol .semicolon))
    (isSound : (parse rest).diagnostics = []) :
    ∃ token, (Cursor.ofText (broken ++ rest)).tokens[front.length + 2]? = some token ∧
      (¬ EndsEarly (front.foldl Tape.depthAfter 0) back →
        parse (broken ++ rest) =
          ⟨(parse rest).program, [.unexpected (.symbol .assign) token]⟩) ∧
      (EndsEarly (front.foldl Tape.depthAfter 0) back →
        ∃ stray others, stray.kind.IsStray ∧
          (parse (broken ++ rest)).diagnostics =
            .unexpected (.symbol .assign) token :: .noOperand stray :: others) := by
  -- the sign stands between what is before it and what is behind it
  have isWhole : (Cursor.ofText source).words.map Token.kind =
      front ++ [Kind.keyword .letWord] ++ [Kind.ident name] ++ [Kind.symbol .assign] ++ back := by
    simp [isSource]
  have isHalf : (Cursor.ofText broken).words.map Token.kind =
      front ++ [Kind.keyword .letWord] ++ [Kind.ident name] ++ back := by
    simp [isBroken]
  obtain ⟨inner, rfl⟩ : ∃ inner, back = inner ++ [.symbol .semicolon] := by
    rw [← List.getLast?_map, isWhole] at semicolon
    exact List.getLast?_eq_some_iff.mp (getLast?_of_append semicolon (by simp))
  have isProgram : IsProgram _ (parse source).program :=
    Tape.isProgram_of_parse (congrArg Parsed.diagnostics isParsed)
  rw [isParsed, Tape.kinds, Tape.ofCursor, isWhole] at isProgram
  obtain ⟨passed, ahead, isWords, isPassed, isBehind⟩ := List.map_eq_append_iff.mp isHalf
  have notEnd : ahead ≠ [] := by
    rintro rfl
    simp at isBehind
  have closed : (Tape.ofCursor (.ofText broken)).Closed := closed_of_omission isHalf isProgram
  have isBoth : parse (broken ++ rest) =
      ⟨(parse broken).program ++ (parse rest).program, (parse broken).diagnostics⟩ := by
    rw [parse_append_of_closed closed, Parsed.append, Parsed.map, isSound, List.map_nil,
      List.append_nil]
  have isToken := Cursor.tokens_append_getElem? closed isWords notEnd rest
  have isNumber : passed.length = front.length + 2 := by
    simpa using congrArg List.length isPassed
  have isDepth : (front ++ [Kind.keyword .letWord]).foldl Tape.depthAfter 0 =
      front.foldl Tape.depthAfter 0 := List.foldl_append
  have isRead : parse broken = (Tape.ofCursor (.ofText broken)).parse := rfl
  have isAhead : (Tape.ofCursor (.ofText broken)).ahead = passed ++ ahead := isWords
  obtain ⟨once, twice⟩ := Tape.parse_of_omission isAhead isPassed isBehind rfl isProgram
  rw [isBehind, isDepth, ← isRead] at once twice
  rw [isNumber] at isToken
  refine ⟨_, isToken, fun notEarly => ?_, fun early => ?_⟩
  · rw [isBoth, once notEarly]
    rfl
  · obtain ⟨stray, others, isStray, isTold⟩ := twice early
    rw [isBoth]
    exact ⟨stray, others, isStray, isTold⟩

/-- In a function that is bound to a name a missing sign is told once. -/
theorem parse_without_assign_function :
    parse "let f = fn() { let x = 5; 1 };" =
        ⟨[.letBind "f" (.fn [] [.letBind "x" (.int 5), .expr (.int 1)])], []⟩ ∧
      ∃ token, (Cursor.ofText ("let f = fn() { let x 5; 1 };" ++ "2;")).tokens[9]? = some token ∧
        parse ("let f = fn() { let x 5; 1 };" ++ "2;") =
          ⟨(parse "2;").program, [.unexpected (.symbol .assign) token]⟩ := by
  have isParsed : parse "let f = fn() { let x = 5; 1 };" =
      ⟨[.letBind "f" (.fn [] [.letBind "x" (.int 5), .expr (.int 1)])], []⟩ := by cbv
  obtain ⟨token, isToken, once, -⟩ := @parse_without_assign "let f = fn() { let x = 5; 1 };"
    "let f = fn() { let x 5; 1 };" "2;"
    [.keyword .letWord, .ident "f", .symbol .assign, .keyword .function, .symbol .leftParen,
      .symbol .rightParen, .symbol .leftBrace]
    [.int "5", .symbol .semicolon, .int "1", .symbol .rightBrace, .symbol .semicolon]
    "x" _ (by cbv) (by cbv) isParsed (by cbv) (by cbv)
  exact ⟨isParsed, token, isToken, once (by decide)⟩

/-- In a function that is passed as an argument it is told twice: skipping ends behind the
function, and the comma there is no statement. -/
theorem parse_without_assign_argument :
    parse "f(fn() { let x = 5; }, 3);" =
        ⟨[.expr (.call (.ident "f") [.fn [] [.letBind "x" (.int 5)], .int 3])], []⟩ ∧
      parse ("f(fn() { let x  5; }, 3);" ++ "2;") =
        ⟨[.expr (.int 2)],
          [.unexpected (.symbol .assign) ⟨.int "5", 16, 17⟩,
            .noOperand ⟨.symbol .comma, 20, 21⟩]⟩ := by
  constructor
  · cbv
  · cbv

end Monkey
