/-
# Reading a whole tape

What is read from a tape is a matter of the kinds ahead, and not of how the tape came to
stand there: the token taken last is looked at only after an error, and by then another
one has been taken. With each token exchanged for another of its kind, skipping a broken
statement ends at the same token, so the same statements are found and the same
diagnostics are given.
-/

import Monkey.Proofs.Parse.Budget

namespace Monkey

/-- The same result, with the tokens that diagnostics name exchanged. -/
def Parsed.map (f : Token → Token) (parsed : Parsed) : Parsed :=
  { parsed with diagnostics := parsed.diagnostics.map (Diagnostic.map f) }

namespace Tape

/-- The token taken last makes no difference to what is read. -/
theorem parse_eq_of_last (tape : Tape) (last : Option Token) :
    ({ tape with last := last } : Tape).parse = tape.parse := by
  rw [parse, parse]
  cases tape.ahead.length with
  | zero => rfl
  | succ count => rfl

namespace Image

variable {f : Token → Token} (kinds : ∀ token, (f token).kind = token.kind) {tape image : Tape}
  (related : Image f tape image)

include related

theorem length : image.ahead.length = tape.ahead.length := by
  rw [related.ahead, List.length_map]

theorem ahead_eq_nil : image.ahead = [] ↔ tape.ahead = [] := by
  rw [related.ahead, List.map_eq_nil_iff]

theorem budget : image.budget = tape.budget := by
  rw [Tape.budget, Tape.budget, related.length]

include kinds

theorem lastKind : image.last.map Token.kind = tape.last.map Token.kind := by
  rw [related.last, Option.map_map]
  exact congrFun (congrArg Option.map (funext kinds)) _

theorem atBoundary : image.atBoundary = tape.atBoundary := by
  rw [Tape.atBoundary, Tape.atBoundary, related.lastKind kinds, goesOn, goesOn, related.peek, kinds,
    related.depth]

/-- Skipping ends at the same token. -/
theorem recover : Image f tape.recover image.recover := by
  have sameLast := related.lastKind kinds
  have sameBoundary := related.atBoundary kinds
  have sameEnd := related.ahead_eq_nil
  induction tape using Tape.recover.induct generalizing image with
  | case1 tape isBoundary isBrace =>
      rw [recover_of_boundary isBoundary, if_pos isBrace,
        recover_of_boundary (sameBoundary.trans isBoundary), if_pos (sameLast.trans isBrace)]
      exact related.skipSemicolon kinds
  | case2 tape isBoundary notBrace =>
      rw [recover_of_boundary isBoundary, if_neg notBrace,
        recover_of_boundary (sameBoundary.trans isBoundary), if_neg (sameLast ▸ notBrace)]
      exact related
  | case3 tape notBoundary atEnd =>
      rw [recover_of_end notBoundary atEnd,
        recover_of_end (sameBoundary ▸ notBoundary) (sameEnd.mpr atEnd)]
      exact related
  | case4 tape notBoundary notEnd ih =>
      have taken := related.take kinds
      rw [recover_of_next notBoundary notEnd,
        recover_of_next (sameBoundary ▸ notBoundary) (mt sameEnd.mp notEnd)]
      exact ih taken (taken.lastKind kinds) (taken.atBoundary kinds) taken.ahead_eq_nil

/-- The next statement is read alike. -/
theorem statement :
    Parser.Alike f (Parser.statement tape.budget tape.peek tape.take)
      (Parser.statement image.budget image.peek image.take) := by
  have rules := (Parser.Mirrors.discipline kinds).rules (Nat.le_refl tape.budget)
  have taken := Parser.Stages.anywhere_taken tape.peek tape.take
  rw [related.budget, related.peek]
  exact Parser.Mirrors.of_begins (rules.statement taken) image.take (related.take kinds)

/-- Reading goes by kinds, broken statements included. -/
theorem parse : image.parse = tape.parse.map f := by
  induction tape using parse_induction generalizing image with
  | atEnd tape isEnd =>
      rw [parse_of_end isEnd, parse_of_end (related.ahead_eq_nil.mpr isEnd)]
      rfl
  | sound tape stmt after nonempty isOk isParsed ih =>
      have alike := related.statement kinds
      rw [isOk] at alike
      generalize isReached : Parser.statement image.budget image.peek image.take = reached at alike
      cases alike with
      | value _ isAfter =>
          rw [parse_of_ok (mt related.ahead_eq_nil.mp nonempty) isReached, isParsed, ih isAfter]
          rfl
  | broken tape diagnostic stopped nonempty isError isParsed ih =>
      have alike := related.statement kinds
      rw [isError] at alike
      generalize isReached : Parser.statement image.budget image.peek image.take = reached at alike
      cases alike with
      | rejected _ isStopped =>
          have others := ih (isStopped.recover kinds)
          rw [parse_of_error (mt related.ahead_eq_nil.mp nonempty) isReached, isParsed, others]
          rfl

end Image

end Tape

end Monkey
