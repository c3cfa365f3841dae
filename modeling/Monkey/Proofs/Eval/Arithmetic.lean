/-
# Exact arithmetic

An integer expression has a value over the unbounded integers, which mentions neither
words nor overflow. Evaluation works with 64 bits instead and wraps around at every
node, so on its way it may hold numbers that have little to do with the exact ones.

The central fact is that this does no harm. Wrapping commutes with the opposite, the
sum, the difference and the product, so what comes out at the root is the exact value
wrapped once, whatever has overflowed below. It does not commute with the quotient: a
quotient is that of the two wrapped operands, and this is why it may be wrapped itself
at the top of an exact expression and cannot be a part of one.
-/

import Mathlib
import Monkey.Proofs.Eval.Steps

namespace Monkey

/-- Of an integer, what 64 bits hold: the one among the integers from -2 ^ 63 up to and
without 2 ^ 63 that differs from it by a multiple of 2 ^ 64. -/
structure Wraps (exact wrapped : Int) : Prop where
  least : -2 ^ 63 ≤ wrapped
  most : wrapped < 2 ^ 63
  congruent : wrapped ≡ exact [ZMOD 2 ^ 64]

namespace Wraps

/-- There is one such integer, and the conversion to 64 bits finds it. -/
theorem iff_ofInt {exact wrapped : Int} :
    Wraps exact wrapped ↔ wrapped = (Int64.ofInt exact).toInt := by
  have balanced : exact.bmod Int64.size = wrapped ↔
      -2 ^ 63 ≤ wrapped ∧ wrapped < 2 ^ 63 ∧ (2 ^ 64 : Int) ∣ wrapped - exact :=
    Int.bmod_eq_iff (by decide)
  rw [Int64.toInt_ofInt, eq_comm, balanced]
  constructor
  · intro wraps
    exact ⟨wraps.least, wraps.most, Int.modEq_iff_dvd.mp wraps.congruent.symm⟩
  · rintro ⟨least, most, divides⟩
    exact ⟨least, most, (Int.modEq_iff_dvd.mpr divides).symm⟩

/-- A quotient of 64 bits is the wrapped quotient of the integers that its operands stand
for. Only one quotient is wrapped in earnest, that of the least integer by -1. -/
theorem quotient (dividend divisor : Int64) :
    Wraps (dividend.toInt.tdiv divisor.toInt) (dividend / divisor).toInt := by
  rw [iff_ofInt, Int64.toInt_ofInt, Int64.toInt_div]

end Wraps

/-- The expression is made of integers, of names that are bound to integers, and of the
operators that have a meaning on all integers; and this is its exact value. -/
inductive Expr.Denotes (store : Store) (env : FrameId) : Expr → Int → Prop
  | int (value : Int64) : Denotes store env (.int value) value.toInt
  | ident {name : String} {value : Int64}
      (isBound : store.resolve env name = some (.int value)) :
      Denotes store env (.ident name) value.toInt
  | negate {operand : Expr} {n : Int} (isOperand : Denotes store env operand n) :
      Denotes store env (.prefixOp .minus operand) (-n)
  | plus {left right : Expr} {n k : Int} (isLeft : Denotes store env left n)
      (isRight : Denotes store env right k) :
      Denotes store env (.infixOp .plus left right) (n + k)
  | minus {left right : Expr} {n k : Int} (isLeft : Denotes store env left n)
      (isRight : Denotes store env right k) :
      Denotes store env (.infixOp .minus left right) (n - k)
  | multiply {left right : Expr} {n k : Int} (isLeft : Denotes store env left n)
      (isRight : Denotes store env right k) :
      Denotes store env (.infixOp .multiply left right) (n * k)

section

variable {call : Closure → List Value → Eval Value} {env : FrameId} {site : Site}
  {store middle after : Store}

/-- To hold what has captured nothing, as no integer has, makes no difference. -/
theorem Eval.holding_eq_self {α : Type} {value : Value} (nothing : value.captured = [])
    (inner : Eval α) : Eval.holding value inner = inner := by
  funext store
  have kept (after : Store) : after.release value.captured = after := by
    rw [nothing, Store.release]
  unfold Eval.holding
  cases inner store with
  | ok result after => exact congrArg (EStateM.Result.ok result) (kept after)
  | error signal after => exact congrArg (EStateM.Result.error signal) (kept after)

theorem Expr.eval_negated {operand : Expr} {value : Int64}
    (isOperand : operand.eval call env (site.child 0) store = .ok (.int value) after) :
    (Expr.prefixOp .minus operand).eval call env site store = .ok (.int (-value)) after := by
  rw [Expr.eval, Eval.bind_of_ok isOperand, Eval.holding_eq_self rfl]
  rfl

/-- Between two integers an operator is calculated once both are known. -/
theorem Expr.eval_calculated {op : InfixOp} {left right : Expr} {first second : Int64}
    (isLeft : left.eval call env (site.child 0) store = .ok (.int first) middle)
    (isRight : right.eval call env (site.child 1) middle = .ok (.int second) after) :
    (Expr.infixOp op left right).eval call env site store =
      Eval.ofExcept (op.applyInt first second) after := by
  rw [Expr.eval, Eval.bind_of_ok isLeft, Eval.holding_eq_self rfl, Eval.bind_of_ok isRight,
    Eval.holding_eq_self rfl]
  rfl

end

namespace Expr.Denotes

variable {store : Store} {env : FrameId} {expr : Expr} {n : Int}

/-- What has been calculated of an expression is its exact value, wrapped. The induction is
on the expression; at each node both sides wrap the same operation. -/
theorem eval_ofInt (denotes : expr.Denotes store env n)
    (call : Closure → List Value → Eval Value) (site : Site) :
    expr.eval call env site store = .ok (.int (.ofInt n)) store := by
  induction denotes generalizing site with
  | int value =>
      rw [Int64.ofInt_toInt]
      rfl
  | ident isBound =>
      rw [Expr.eval, Eval.lookup_apply, isBound, Int64.ofInt_toInt]
      rfl
  | negate _ isOperand =>
      rw [Expr.eval_negated (isOperand _), Int64.ofInt_neg]
  | plus _ _ isLeft isRight =>
      rw [Expr.eval_calculated (isLeft _) (isRight _), Int64.ofInt_add]
      rfl
  | minus _ _ isLeft isRight =>
      rw [Expr.eval_calculated (isLeft _) (isRight _), Int64.ofInt_sub]
      rfl
  | multiply _ _ isLeft isRight =>
      rw [Expr.eval_calculated (isLeft _) (isRight _), Int64.ofInt_mul]
      rfl

/-- A program that is one exact expression runs to that value and leaves the store as it is. -/
theorem outcome_ofInt (denotes : expr.Denotes store env n) (depth base : Nat) :
    (Program.eval depth env base [.expr expr]).outcome store =
      (.value (.int (.ofInt n)), store) := by
  have isStmt : (Stmt.expr expr).eval (Closure.apply depth) env (Site.child [] base) store =
      .ok (.int (.ofInt n)) store := by
    rw [Stmt.eval, denotes.eval_ofInt]
  rw [Eval.outcome, Program.eval, Stmt.evalList, Eval.holding_eq_self rfl, Eval.bind_of_ok isStmt]
  rfl

/-- A quotient of two exact expressions, by what is left of both. -/
theorem eval_divide {dividend divisor : Expr} {k : Int}
    (isDividend : dividend.Denotes store env n) (isDivisor : divisor.Denotes store env k)
    (call : Closure → List Value → Eval Value) (site : Site) :
    (Expr.infixOp .divide dividend divisor).eval call env site store =
      if Int64.ofInt k = 0 then .error (.failed .divisionByZero) store
      else .ok (.int (.ofInt n / .ofInt k)) store := by
  rw [Expr.eval_calculated (isDividend.eval_ofInt call _) (isDivisor.eval_ofInt call _),
    InfixOp.applyInt]
  split
  · rfl
  · rfl

/-- Exact expressions evaluate, without a trace in the store, to the one 64-bit integer that
is congruent to their exact value. The quotient of two of them is a division by zero just
when that of the divisor is zero, and else the quotient of the two, wrapped once more. -/
theorem eval_wraps {dividend divisor : Expr} {k : Int}
    (isDividend : dividend.Denotes store env n) (isDivisor : divisor.Denotes store env k)
    (call : Closure → List Value → Eval Value) (site : Site) :
    (∃ value : Int64, dividend.eval call env site store = .ok (.int value) store ∧
        ∀ wrapped, Wraps n wrapped ↔ wrapped = value.toInt) ∧
      ∀ a b : Int, Wraps n a → Wraps k b →
        ((Expr.infixOp .divide dividend divisor).eval call env site store =
            .error (.failed .divisionByZero) store ↔ b = 0) ∧
          (b ≠ 0 → ∃ quotient : Int64,
            (Expr.infixOp .divide dividend divisor).eval call env site store =
                .ok (.int quotient) store ∧
              Wraps (a.tdiv b) quotient.toInt) := by
  refine ⟨⟨.ofInt n, isDividend.eval_ofInt call site, fun wrapped => Wraps.iff_ofInt⟩, ?_⟩
  intro a b isA isB
  obtain rfl := Wraps.iff_ofInt.mp isA
  obtain rfl := Wraps.iff_ofInt.mp isB
  have isZero : (Int64.ofInt k).toInt = 0 ↔ Int64.ofInt k = 0 := by
    rw [← Int64.toInt_inj, Int64.toInt_zero]
  rw [isDividend.eval_divide isDivisor call site, isZero, Ne, isZero]
  by_cases zero : Int64.ofInt k = 0
  · rw [if_pos zero]
    exact ⟨⟨fun _ => zero, fun _ => rfl⟩, fun nonzero => absurd zero nonzero⟩
  · rw [if_neg zero]
    refine ⟨⟨nofun, fun isZero => absurd isZero zero⟩, fun _ => ?_⟩
    exact ⟨_, rfl, Wraps.quotient _ _⟩

/-- The dividend is 2 ^ 63 and has overflowed, so the quotient by -1 is 2 ^ 63 as well and has
overflowed again: it is calculated from -2 ^ 63. -/
theorem eval_wraps_of_least :
    let store := Session.start.store.define Session.start.global "x" (.int 1)
    let dividend := Expr.infixOp .plus (.int Int64.maxValue) (.ident "x")
    let divisor := Expr.prefixOp .minus (.ident "x")
    Wraps (2 ^ 63) (-2 ^ 63) ∧ ∃ quotient : Int64,
      (Expr.infixOp .divide dividend divisor).eval (Closure.apply 0) Session.start.global []
          store = .ok (.int quotient) store ∧
        Wraps (Int.tdiv (-2 ^ 63) (-1)) quotient.toInt := by
  intro store dividend divisor
  have isBound : store.resolve Session.start.global "x" = some (.int 1) := by
    unfold store
    cbv
  have isDividend : dividend.Denotes store Session.start.global (2 ^ 63) :=
    .plus (.int Int64.maxValue) (.ident isBound)
  have isDivisor : divisor.Denotes store Session.start.global (-1) := .negate (.ident isBound)
  have isLeast : Wraps (2 ^ 63) (-2 ^ 63) := ⟨le_rfl, by decide, by decide⟩
  have isMinusOne : Wraps (-1) (-1) := ⟨by decide, by decide, rfl⟩
  obtain ⟨-, quotients⟩ := eval_wraps isDividend isDivisor (Closure.apply 0) []
  exact ⟨isLeast, (quotients _ _ isLeast isMinusOne).2 (by decide)⟩

end Expr.Denotes

end Monkey
