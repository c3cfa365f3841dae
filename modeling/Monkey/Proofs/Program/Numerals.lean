/-
# Integers as they are written

A literal is a run of digits of any length, and it denotes what it says in the decimal
system or nothing at all: at 2 ^ 63 there is no rounding and no wrapping, but a diagnostic.

Integers are shown in the same digits, the negative ones behind a minus sign. Read again,
such a text is no literal but an operation on one, and the bound lies on the literal. So
there is a single integer that is shown and cannot be read, the least one: its sign comes
too late, since its digits alone are one too large.
-/

import Mathlib
import Monkey.Proofs.Eval.Arithmetic
import Monkey.Proofs.Program.Reparse

namespace Monkey

open Grammar

/-! ## Runs of digits -/

/-- What digits say in the decimal system, where the last one counts ones. -/
def Text.decimal (digits : List Char) : Nat :=
  Nat.ofDigits 10 (digits.map fun c => c.toNat - '0'.toNat).reverse

/-- The digits are read from the front, which comes to the same. -/
theorem Grammar.number_eq_decimal (digits : String) :
    number digits = Text.decimal digits.toList := by
  have agree (digits : List Char) : Nat.ofDigitChars 10 digits 0 = Text.decimal digits := by
    induction digits using List.reverseRecOn with
    | nil => rfl
    | append_singleton digits last ih =>
        rw [Nat.ofDigitChars_append, Nat.ofDigitChars_cons, Nat.ofDigitChars_nil, ih,
          Text.decimal, Text.decimal, List.map_append, List.map_singleton,
          List.reverse_concat, Nat.ofDigits_cons, Nat.add_comm]
  exact agree digits.toList

/-- A run of digits is one token. -/
theorem Cursor.words_of_digits {digits : String} (nonempty : digits.toList ≠ [])
    (areDigits : ∀ c ∈ digits.toList, c.isDigit = true) :
    (ofText digits).words = [⟨.int digits, 0, digits.utf8ByteSize⟩] :=
  @words_of_literal (.int digits) ⟨nonempty, areDigits⟩
    (Kind.byTable_of_not_isWord (not_isWord_of_digits areDigits))

theorem Parser.integer_of_tooLarge {token : Token} {digits : String}
    (large : largestLiteral < number digits) (tape : Tape) :
    integer token digits tape = .error (.rejected (.integerTooLarge token)) tape := by
  have isRejected : integer token digits = reject (.integerTooLarge token) :=
    if_neg (Nat.not_le.mpr large)
  rw [isRejected]
  rfl

/-- A text whose tokens are an expression is read as that expression. -/
theorem parse_of_isExpr {text : String} {kinds : List Kind} {expr : Expr} {stratum : Stratum}
    (isKinds : (Cursor.ofText text).words.map Token.kind = kinds)
    (isExpr : IsExpr stratum kinds expr) : parse text = ⟨[.expr expr], []⟩ := by
  have isStmt : IsStmt kinds (.expr expr) := .expr (isExpr.loosen (Nat.zero_le _))
  have isProgram : IsProgram (kinds ++ []) [.expr expr] := .unended isStmt .nil (by simp)
  rw [List.append_nil, ← isKinds] at isProgram
  exact Tape.parse_of_isProgram isProgram

/-- A literal that denotes too much is broken, and nothing is behind it to be skipped. -/
theorem Tape.parse_of_tooLarge {tape : Tape} {token : Token} {digits : String}
    (isAhead : tape.ahead = [token]) (isInt : token.kind = .int digits)
    (large : Parser.largestLiteral < number digits) :
    tape.parse = ⟨[], [.integerTooLarge token]⟩ := by
  have isPeek : tape.peek = token := by
    rw [peek, isAhead]
    rfl
  have isOperand : Parser.operand 6 token tape.take =
      .error (.rejected (.integerTooLarge token)) tape.take := by
    rw [Parser.operand_succ, isInt]
    exact Parser.integer_of_tooLarge large _
  have isError : Parser.statement tape.budget tape.peek tape.take =
      .error (.rejected (.integerTooLarge token)) tape.take := by
    rw [budget, isAhead, isPeek]
    exact Parser.statement_of_operand 5 (by simp [isInt]) (by simp [isInt]) isOperand
  have atEnd : tape.take.ahead = [] := by
    rw [take, isAhead]
    rfl
  have notBoundary : ¬ tape.take.atBoundary = true := by
    simp [atBoundary, take, isPeek, isInt]
  rw [parse_of_error (by simp [isAhead]) isError, recover_of_end notBoundary atEnd,
    parse_of_end atEnd]
  rfl

/-! ## What is shown -/

/-- The integer with the other sign, which all have but the least one. -/
theorem Int64.toInt_neg_of_ne {value : Int64} (notLeast : value ≠ Int64.minValue) :
    (-value).toInt = -value.toInt := by
  have above : Int64.minValue.toInt ≠ value.toInt := fun same => notLeast (Int64.toInt_inj.mp same.symm)
  have least : Int64.minValue.toInt = -2 ^ 63 := rfl
  have low := value.le_toInt
  have high := value.toInt_lt
  rw [Int64.toInt_neg, Int.bmod_eq_of_le_mul_two]
  · omega
  · omega

/-- What is shown of an integer, except of the least one, is an exact expression for it. -/
theorem parse_intText {value : Int64} (notLeast : value ≠ Int64.minValue) :
    ∃ expr, parse (intText value) = ⟨[.expr expr], []⟩ ∧
      ∀ store env, expr.Denotes store env value.toInt := by
  by_cases nonneg : 0 ≤ value.toInt
  · have isParsed := parse_of_isExpr (Writes.integer nonneg).words_eq (.ofIntText nonneg)
    exact ⟨_, isParsed, fun store env => .int value⟩
  · have negated := Int64.toInt_neg_of_ne notLeast
    have positive : 0 ≤ (-value).toInt := by omega
    have isAbs : value.toInt.natAbs = (-value).toInt.toNat := by omega
    have isText : (intText value).toList = '-' :: (intText (-value)).toList := by
      rw [toList_intText_of_neg (by omega), toList_intText positive, isAbs]
    have writes : Writes (intText value).toList [.symbol .minus, .int (intText (-value))] := by
      rw [isText]
      exact fun rest more parted spelled =>
        .symbol .minus trivial (Writes.integer positive rest more parted spelled)
    have isOperand := (IsExpr.ofIntText positive).ofPrimary .unary
    have denotes (store : Store) (env : FrameId) :
        (Expr.prefixOp .minus (.int (-value))).Denotes store env (-(-value).toInt) :=
      .negate (.int (-value))
    rw [negated, Int.neg_neg] at denotes
    exact ⟨_, parse_of_isExpr writes.words_eq (.prefixOp .minus isOperand), denotes⟩

/-- A run of digits is read exactly or, from 2 ^ 63 on, not at all. So every integer is read
back from what is shown of it, but for the least one. -/
theorem parse_numerals :
    (∀ digits : String, digits.toList ≠ [] → (∀ c ∈ digits.toList, c.isDigit = true) →
        (Text.decimal digits.toList ≤ 2 ^ 63 - 1 →
            ∃ value : Int64, value.toInt = Text.decimal digits.toList ∧
              parse digits = ⟨[.expr (.int value)], []⟩) ∧
          (2 ^ 63 - 1 < Text.decimal digits.toList →
            parse digits = ⟨[], [.integerTooLarge ⟨.int digits, 0, digits.utf8ByteSize⟩]⟩)) ∧
      ∀ value : Int64,
        (value ≠ Int64.minValue → ∃ program, parse (Value.int value).inspect = ⟨program, []⟩ ∧
          ∀ depth env base store,
            (Program.eval depth env base program).outcome store = (.value (.int value), store)) ∧
          (value = Int64.minValue → parse (Value.int value).inspect =
            ⟨[], [.integerTooLarge ⟨.int "9223372036854775808", 1, 20⟩]⟩) := by
  refine ⟨fun digits nonempty areDigits => ?_, fun value => ⟨fun notLeast => ?_, ?_⟩⟩
  · have isWords := Cursor.words_of_digits nonempty areDigits
    rw [← number_eq_decimal]
    constructor
    · intro fits
      have isParsed := parse_of_isExpr (congrArg (List.map Token.kind) isWords) (.int digits fits)
      exact ⟨_, Int64.toInt_ofNat_of_lt (by omega), isParsed⟩
    · intro large
      exact Tape.parse_of_tooLarge isWords rfl large
  · obtain ⟨expr, isParsed, denotes⟩ := parse_intText notLeast
    refine ⟨_, isParsed, fun depth env base store => ?_⟩
    rw [(denotes store env).outcome_ofInt, Int64.ofInt_toInt]
  · rintro rfl
    cbv

/-- The largest literal, with zeros in front of it, and the smallest one that is too large. -/
theorem parse_numerals_largest :
    (∃ value : Int64, value.toInt = 9223372036854775807 ∧
        parse "0009223372036854775807" = ⟨[.expr (.int value)], []⟩) ∧
      parse "9223372036854775808" =
        ⟨[], [.integerTooLarge ⟨.int "9223372036854775808", 0, 19⟩]⟩ := by
  constructor
  · have isDecimal : Text.decimal "0009223372036854775807".toList = 9223372036854775807 := by cbv
    obtain ⟨fits, -⟩ :=
      parse_numerals.1 "0009223372036854775807" (by decide) (List.all_eq_true.mp rfl)
    rw [isDecimal] at fits
    exact fits (by decide)
  · have isDecimal : Text.decimal "9223372036854775808".toList = 9223372036854775808 := by cbv
    obtain ⟨-, large⟩ :=
      parse_numerals.1 "9223372036854775808" (by decide) (List.all_eq_true.mp rfl)
    rw [isDecimal] at large
    exact large (by decide)

end Monkey
