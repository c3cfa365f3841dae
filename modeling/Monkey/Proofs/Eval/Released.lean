/-
# Functions whose home is gone

A function value does not keep its home alive, so a program can be left with a function
that it can no longer call. This module says exactly when that happens. A run ends with
the fault if and only if it makes a call, with the right number of arguments, of a
function whose home is kept by nothing: neither does anything held at that moment lead
to it along links, nor does a circle of links.

It does happen. A function that is handed out by a function other than the one in which
it was made captures the frame of the call that returns it, and nothing makes that frame
lie inside its home.
-/

import Mathlib
import Monkey.Proofs.Eval.Built
import Monkey.Proofs.Store.Reachability

namespace Monkey

/-- The call has the right number of arguments, but the home of its function is gone. -/
def Call.Fails (made : Call) : Prop :=
  made.closure.parameters.length = made.arguments.length ∧
    made.store.isLive made.closure.home = false

namespace Eval

/-- The action ends because a function was called whose home is gone. -/
def MeetsReleased {α : Type} (action : Eval α) (store : Store) : Prop :=
  ∃ after, action store = .error (.failed .releasedEnvironment) after

section

variable {α β : Type}

/-- An action that cannot meet the fault goes with making no calls. -/
theorem iff_of_none {action : Eval α} {store : Store} {makes property : Call → Prop}
    (never : ¬ MeetsReleased action store) (none : ∀ made, ¬ makes made) :
    MeetsReleased action store ↔ ∃ made, makes made ∧ property made :=
  iff_of_false never fun ⟨made, isMade, _⟩ => none made isMade

/-- A call made by the first of two actions or by the second is looked for in one of them. -/
theorem exists_made_or_after {action : Eval α} {store : Store} {first property : Call → Prop}
    {second : α → Store → Call → Prop} :
    (∃ made, (first made ∨ action.After store fun result after => second result after made) ∧
        property made) ↔
      (∃ made, first made ∧ property made) ∨
        action.After store fun result after =>
          ∃ made, second result after made ∧ property made := by
  constructor
  · rintro ⟨made, byFirst | ⟨result, after, isResult, bySecond⟩, holds⟩
    · exact Or.inl ⟨made, byFirst, holds⟩
    · exact Or.inr ⟨result, after, isResult, made, bySecond, holds⟩
  · rintro (⟨made, byFirst, holds⟩ | ⟨result, after, isResult, made, bySecond, holds⟩)
    · exact ⟨made, Or.inl byFirst, holds⟩
    · exact ⟨made, Or.inr ⟨result, after, isResult, bySecond⟩, holds⟩

theorem meetsReleased_bind {first : Eval α} {second : α → Eval β} {store : Store} :
    MeetsReleased (first >>= second) store ↔
      MeetsReleased first store ∨
        first.After store fun result after => MeetsReleased (second result) after := by
  unfold MeetsReleased After
  cases isFirst : first store with
  | ok result after => simp [bind_of_ok isFirst]
  | error signal after => simp [bind_of_error isFirst]

theorem meetsReleased_bind_of_second {first : Eval α} {second : α → Eval β} {store : Store}
    (never : ∀ result after, ¬ MeetsReleased (second result) after) :
    MeetsReleased (first >>= second) store ↔ MeetsReleased first store := by
  rw [meetsReleased_bind]
  apply or_iff_left
  rintro ⟨result, after, -, met⟩
  exact never result after met

theorem meetsReleased_holding {value : Value} {inner : Eval α} {store : Store} :
    MeetsReleased (holding value inner) store ↔ MeetsReleased inner store := by
  unfold MeetsReleased holding
  cases inner store <;> simp

theorem meetsReleased_keeping {value : Value} {inner : Eval α} {store : Store} :
    MeetsReleased (keeping value inner) store ↔ MeetsReleased inner store := by
  unfold MeetsReleased keeping
  cases inner store <;> simp

theorem meetsReleased_inFrame (frame : FrameId) {body : Eval Value} {store : Store} :
    MeetsReleased (inFrame frame body) store ↔ MeetsReleased body store := by
  unfold MeetsReleased inFrame
  cases body store with
  | ok value after => cases value <;> simp [inFrame.leave]
  | error signal after =>
      cases signal with
      | returned value => cases value <;> simp [inFrame.leave]
      | failed fault => simp
      | tooDeep => simp

theorem not_meetsReleased_pure (result : α) (store : Store) :
    ¬ MeetsReleased (pure result) store := by
  rintro ⟨after, met⟩
  cases met

theorem not_meetsReleased_lookup (env : FrameId) (name : String) (store : Store) :
    ¬ MeetsReleased (lookup env name) store := by
  rintro ⟨after, met⟩
  rw [lookup_apply] at met
  split at met <;> cases met

end

end Eval

/-- No operator has this fault. -/
theorem PrefixOp.apply_ne_released (op : PrefixOp) (operand : Value) :
    op.apply operand ≠ .error .releasedEnvironment := by
  cases op <;> cases operand <;> simp [PrefixOp.apply]

theorem InfixOp.apply_ne_released (op : InfixOp) (left right : Value) :
    op.apply left right ≠ .error .releasedEnvironment := by
  intro failed
  unfold InfixOp.apply InfixOp.applyInt at failed
  repeat' split at failed
  all_goals cases failed

theorem Eval.not_meetsReleased_ofExcept {outcome : Except Fault Value}
    (sound : outcome ≠ .error .releasedEnvironment) (store : Store) :
    ¬ MeetsReleased (ofExcept outcome) store := by
  rintro ⟨after, met⟩
  cases outcome with
  | ok value => cases met
  | error fault =>
      cases met
      exact sound rfl

open Eval

section

-- In a mutual block every theorem takes all the assumptions that one of them uses.
set_option linter.unusedSectionVars false

variable {call : Closure → List Value → Eval Value}
  {inside : List Hold → Closure → List Value → Store → Call → Prop}
  (calls : ∀ held closure arguments store,
    MeetsReleased (call closure arguments) store ↔
      ∃ made, inside held closure arguments store made ∧ made.Fails)
  {env : FrameId}

include calls

mutual

theorem Expr.meetsReleased_iff (held : List Hold) (site : Site) (expr : Expr) (store : Store) :
    MeetsReleased (expr.eval call env site) store ↔
      ∃ made, expr.Makes call inside env held site store made ∧ made.Fails := by
  match expr with
  | .ident name => exact iff_of_none (not_meetsReleased_lookup env name store) fun _ => id
  | .int value => exact iff_of_none (not_meetsReleased_pure (Value.int value) store) fun _ => id
  | .bool value => exact iff_of_none (not_meetsReleased_pure (Value.bool value) store) fun _ => id
  | .fn parameters body => exact iff_of_none (not_meetsReleased_pure _ store) fun _ => id
  | .prefixOp op operand =>
      rw [Expr.eval, meetsReleased_bind_of_second]
      · exact Expr.meetsReleased_iff held _ operand store
      · intro operand after
        rw [meetsReleased_holding]
        exact not_meetsReleased_ofExcept (op.apply_ne_released operand) after
  | .infixOp op left right =>
      simp only [Expr.Makes]
      rw [Expr.eval, meetsReleased_bind, exists_made_or_after]
      apply or_congr (Expr.meetsReleased_iff held _ left store)
      apply after_congr
      intro left after
      rw [meetsReleased_holding, meetsReleased_bind_of_second]
      · exact Expr.meetsReleased_iff (.value left :: held) _ right after
      · intro right after
        rw [meetsReleased_holding]
        exact not_meetsReleased_ofExcept (op.apply_ne_released left right) after
  | .ifElse condition consequence none =>
      simp only [Expr.Makes]
      rw [Expr.eval, meetsReleased_bind, exists_made_or_after]
      apply or_congr (Expr.meetsReleased_iff held _ condition store)
      apply after_congr
      intro condition after
      rw [meetsReleased_holding]
      cases condition.truthy with
      | true =>
          simpa using Stmt.meetsReleased_iff_list (.value condition :: held) _ 0 .null
            consequence after
      | false => simpa using not_meetsReleased_pure _ after
  | .ifElse condition consequence (some alternative) =>
      simp only [Expr.Makes]
      rw [Expr.eval, meetsReleased_bind, exists_made_or_after]
      apply or_congr (Expr.meetsReleased_iff held _ condition store)
      apply after_congr
      intro condition after
      rw [meetsReleased_holding]
      cases condition.truthy with
      | true => exact Stmt.meetsReleased_iff_list (.value condition :: held) _ 0 .null _ after
      | false => exact Stmt.meetsReleased_iff_list (.value condition :: held) _ 0 .null _ after
  | .call callee arguments =>
      simp only [Expr.Makes]
      rw [Expr.eval, meetsReleased_bind, exists_made_or_after]
      apply or_congr (Expr.meetsReleased_iff held _ callee store)
      apply after_congr
      intro callee after
      rw [meetsReleased_holding]
      cases callee with
      | function closure =>
          simp only [Value.function.injEq, exists_eq_left']
          rw [meetsReleased_bind, exists_made_or_after]
          apply or_congr
            (Expr.meetsReleased_iff_list (.value (.function closure) :: held) _ 0 arguments after)
          exact after_congr fun values ready => calls _ closure values ready
      | _ => simp [MeetsReleased, Eval.fail, throw, throwThe, MonadExceptOf.throw, EStateM.throw]

theorem Stmt.meetsReleased_iff (held : List Hold) (site : Site) (stmt : Stmt) (store : Store) :
    MeetsReleased (stmt.eval call env site) store ↔
      ∃ made, stmt.Makes call inside env held site store made ∧ made.Fails := by
  match stmt with
  | .letBind name value =>
      rw [Stmt.eval, meetsReleased_bind_of_second]
      · exact Expr.meetsReleased_iff held site value store
      · rintro value after ⟨last, met⟩
        cases met
  | .ret value =>
      rw [Stmt.eval, meetsReleased_bind_of_second]
      · exact Expr.meetsReleased_iff held site value store
      · rintro value after ⟨last, met⟩
        cases met
  | .expr value => exact Expr.meetsReleased_iff held site value store

theorem Stmt.meetsReleased_iff_list (held : List Hold) (site : Site) (index : Nat)
    (before : Value) (stmts : List Stmt) (store : Store) :
    MeetsReleased (Stmt.evalList call env site index before stmts) store ↔
      ∃ made, Stmt.MakesList call inside env held site index before stmts store made ∧
        made.Fails := by
  match stmts with
  | [] => exact iff_of_none (not_meetsReleased_pure before store) fun _ => id
  | stmt :: stmts =>
      simp only [Stmt.MakesList]
      rw [Stmt.evalList, meetsReleased_bind, exists_made_or_after, meetsReleased_holding]
      exact or_congr (Stmt.meetsReleased_iff (.value before :: held) _ stmt store)
        (after_congr fun value after =>
          Stmt.meetsReleased_iff_list held site (index + 1) value stmts after)

theorem Expr.meetsReleased_iff_list (held : List Hold) (site : Site) (index : Nat)
    (exprs : List Expr) (store : Store) :
    MeetsReleased (Expr.evalList call env site index exprs) store ↔
      ∃ made, Expr.MakesList call inside env held site index exprs store made ∧ made.Fails := by
  match exprs with
  | [] => exact iff_of_none (not_meetsReleased_pure ([] : List Value) store) fun _ => id
  | expr :: exprs =>
      simp only [Expr.MakesList]
      rw [Expr.evalList, meetsReleased_bind, exists_made_or_after]
      apply or_congr (Expr.meetsReleased_iff held _ expr store)
      apply after_congr
      intro value after
      rw [meetsReleased_bind_of_second, meetsReleased_keeping]
      · exact Expr.meetsReleased_iff_list (.value value :: held) site (index + 1) exprs after
      · exact fun values last => not_meetsReleased_pure _ last

end

end

/-- A call meets the fault exactly when it makes a failing call, itself included. -/
theorem Closure.meetsReleased_iff (depth : Nat) (held : List Hold) (closure : Closure)
    (arguments : List Value) (store : Store) :
    MeetsReleased (Closure.apply depth closure arguments) store ↔
      ∃ made, closure.Makes depth held arguments store made ∧ made.Fails := by
  induction depth generalizing held closure arguments store with
  | zero => simp [MeetsReleased, Closure.apply_zero, Closure.Makes]
  | succ depth ih =>
      simp only [Closure.Makes]
      by_cases fits : closure.parameters.length = arguments.length
      · cases live : store.isLive closure.home with
        | false =>
            have met : MeetsReleased (Closure.apply (depth + 1) closure arguments) store :=
              ⟨_, Closure.apply_of_released depth fits live⟩
            exact iff_of_true met ⟨_, Or.inl rfl, fits, live⟩
        | true =>
            have applied : MeetsReleased (Closure.apply (depth + 1) closure arguments) store ↔
                MeetsReleased (Stmt.evalList (Closure.apply depth) (callFrame store)
                  (closure.site.child 0) 0 .null closure.body)
                  (closure.entered arguments store) := by
              refine Iff.trans ?_ (meetsReleased_inFrame (callFrame store))
              unfold MeetsReleased
              rw [Closure.apply_of_live depth fits live]
            rw [applied, Stmt.meetsReleased_iff_list ih (.scope (callFrame store) :: held)]
            refine exists_congr fun made => and_congr_left fun fails => ?_
            have isInside : made ≠ ⟨Hold.values arguments ++ held, store, closure, arguments⟩ := by
              rintro rfl
              exact Bool.false_ne_true (fails.2.symm.trans live)
            simp [isInside, fits]
      · simp [MeetsReleased, Closure.apply_of_wrongCount depth fits, Call.Fails, fits]

/-- A program meets the fault exactly when one of the calls that it makes fails. -/
theorem Program.meetsReleased_iff (depth : Nat) (env : FrameId) (held : List Hold) (base : Nat)
    (program : Program) (store : Store) :
    MeetsReleased (program.eval depth env base) store ↔
      ∃ made, program.Makes depth env held base store made ∧ made.Fails :=
  Stmt.meetsReleased_iff_list (Closure.meetsReleased_iff depth) held [] base .null program store

theorem Eval.outcome_eq_released {action : Eval Value} {store : Store} :
    (action.outcome store).1 = .failed .releasedEnvironment ↔ MeetsReleased action store := by
  unfold Eval.outcome MeetsReleased
  cases action store with
  | ok value after => simp
  | error signal after => cases signal <;> simp

/-- Wherever the accounts are right, a call fails when nothing keeps the home of its function. -/
theorem Call.fails_iff {made : Call} (balanced : made.store.Balanced made.held) :
    made.Fails ↔ made.closure.parameters.length = made.arguments.length ∧
      ¬ made.store.Kept (Hold.allFrames made.held) made.closure.home := by
  rw [Call.Fails, ← balanced.isLive_iff_kept, Bool.not_eq_true]

/-- In every store that programs have built, a program meets the fault exactly when it calls
a function, with the right number of arguments, whose home nothing keeps at that moment. -/
theorem Store.Built.meetsReleased_iff {store : Store} {held : List Hold} {env : FrameId}
    (built : store.Built held) (inScope : Hold.scope env ∈ held) (depth base : Nat)
    (program : Program) :
    MeetsReleased (program.eval depth env base) store ↔
      ∃ made, program.Makes depth env held base store made ∧
        made.closure.parameters.length = made.arguments.length ∧
          ¬ made.store.Kept (Hold.allFrames made.held) made.closure.home := by
  rw [Program.meetsReleased_iff depth env held]
  refine exists_congr fun made => and_congr_right fun makes => Call.fails_iff ?_
  exact Program.keeps_of_makes balanced_invariant inScope built.balanced makes

namespace Session

/-- A program run by itself ends with the fault exactly when it calls a function whose home
is kept neither by something held at that moment nor by a circle of frames. -/
theorem start_run_eq_released_iff (depth : Nat) (program : Program) :
    (start.run depth program).1 = .failed .releasedEnvironment ↔
      ∃ made, program.Makes depth start.global [.scope start.global] 0 start.store made ∧
        made.closure.parameters.length = made.arguments.length ∧
          ¬ made.store.Kept (Hold.allFrames made.held) made.closure.home :=
  Eval.outcome_eq_released.trans
    (start_built.meetsReleased_iff List.mem_cons_self depth 0 program)

/-- One function is made in a call and returned wrapped by another that was made elsewhere.
The wrapped one can still be reached and called, but the frame of its call is gone. -/
theorem start_run_wrapped_eq_released :
    ∃ program,
      (parse ("let keep = fn(f) \x7b fn() \x7b f \x7d \x7d; " ++
        "fn() \x7b keep(fn() \x7b 1 \x7d) \x7d()()()")).toExcept = .ok program ∧
      (start.run 3 program).1 = .failed .releasedEnvironment := by
  refine ⟨[
    .letBind "keep" (.fn ["f"] [.expr (.fn [] [.expr (.ident "f")])]),
    .expr (.call (.call (.call
      (.fn [] [.expr (.call (.ident "keep") [.fn [] [.expr (.int 1)]])]) []) []) [])], ?_, ?_⟩
  · cbv
  · cbv

end Session

end Monkey
