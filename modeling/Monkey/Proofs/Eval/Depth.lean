/-
# Depths that are enough

A run that was granted too little depth says nothing about its program. Any depth that
is enough gives the same result and the same store, so how a program ends does not
depend on the depth, and neither does what it leaves behind.
-/

import Monkey.Proofs.Eval.Steps

namespace Monkey

namespace Eval

section

variable {α β : Type}

/-- The second evaluation ends like the first one wherever calls are not nested too deeply
for that one. -/
def Deepens (shallow deep : Eval α) : Prop :=
  ∀ store, (∃ after, shallow store = .error .tooDeep after) ∨ deep store = shallow store

namespace Deepens

theorem refl (action : Eval α) : Deepens action action := fun _ => Or.inr rfl

theorem bind {first first' : Eval α} {second second' : α → Eval β}
    (isFirst : Deepens first first')
    (isSecond : ∀ result, Deepens (second result) (second' result)) :
    Deepens (first >>= second) (first' >>= second') := by
  intro store
  rcases isFirst store with ⟨after, tooDeep⟩ | same
  · exact Or.inl ⟨after, bind_of_error tooDeep second⟩
  · cases reached : first store with
    | ok result after =>
        rw [bind_of_ok reached, bind_of_ok (same.trans reached)]
        exact isSecond result after
    | error signal after =>
        rw [bind_of_error reached, bind_of_error (same.trans reached)]
        exact Or.inr rfl

theorem holding (value : Value) {inner inner' : Eval α} (isInner : Deepens inner inner') :
    Deepens (Eval.holding value inner) (Eval.holding value inner') := by
  intro store
  unfold Eval.holding
  rcases isInner store with ⟨after, tooDeep⟩ | same
  · rw [tooDeep]
    exact Or.inl ⟨_, rfl⟩
  · rw [same]
    exact Or.inr rfl

theorem keeping (value : Value) {inner inner' : Eval α} (isInner : Deepens inner inner') :
    Deepens (Eval.keeping value inner) (Eval.keeping value inner') := by
  intro store
  unfold Eval.keeping
  rcases isInner store with ⟨after, tooDeep⟩ | same
  · rw [tooDeep]
    exact Or.inl ⟨_, rfl⟩
  · rw [same]
    exact Or.inr rfl

theorem inFrame (frame : FrameId) {body body' : Eval Value} (isBody : Deepens body body') :
    Deepens (Eval.inFrame frame body) (Eval.inFrame frame body') := by
  intro store
  unfold Eval.inFrame
  rcases isBody store with ⟨after, tooDeep⟩ | same
  · rw [tooDeep]
    exact Or.inl ⟨_, rfl⟩
  · rw [same]
    exact Or.inr rfl

end Deepens

end

end Eval

open Eval

section

-- In a mutual block every theorem takes all the assumptions that one of them uses.
set_option linter.unusedSectionVars false

variable {call call' : Closure → List Value → Eval Value}
  (calls : ∀ closure arguments, Deepens (call closure arguments) (call' closure arguments))
  {env : FrameId}

include calls

mutual

theorem Expr.eval_deepens (site : Site) (expr : Expr) :
    Deepens (expr.eval call env site) (expr.eval call' env site) := by
  match expr with
  | .ident _ => exact .refl _
  | .int _ => exact .refl _
  | .bool _ => exact .refl _
  | .fn _ _ => exact .refl _
  | .prefixOp op operand =>
      rw [Expr.eval, Expr.eval]
      exact .bind (Expr.eval_deepens _ operand) fun _ => .refl _
  | .infixOp op left right =>
      rw [Expr.eval, Expr.eval]
      apply Deepens.bind (Expr.eval_deepens _ left)
      intro left
      apply Deepens.holding left
      exact .bind (Expr.eval_deepens _ right) fun _ => .refl _
  | .ifElse condition consequence none =>
      rw [Expr.eval, Expr.eval]
      apply Deepens.bind (Expr.eval_deepens _ condition)
      intro condition
      apply Deepens.holding condition
      split
      · exact Stmt.evalList_deepens _ _ _ consequence
      · exact .refl _
  | .ifElse condition consequence (some alternative) =>
      rw [Expr.eval, Expr.eval]
      apply Deepens.bind (Expr.eval_deepens _ condition)
      intro condition
      apply Deepens.holding condition
      split
      · exact Stmt.evalList_deepens _ _ _ consequence
      · exact Stmt.evalList_deepens _ _ _ alternative
  | .call callee arguments =>
      rw [Expr.eval, Expr.eval]
      apply Deepens.bind (Expr.eval_deepens _ callee)
      intro callee
      apply Deepens.holding callee
      cases callee with
      | function closure =>
          exact .bind (Expr.evalList_deepens _ _ arguments) fun values => calls closure values
      | _ => exact .refl _

theorem Stmt.eval_deepens (site : Site) (stmt : Stmt) :
    Deepens (stmt.eval call env site) (stmt.eval call' env site) := by
  match stmt with
  | .letBind name value =>
      rw [Stmt.eval, Stmt.eval]
      exact .bind (Expr.eval_deepens _ value) fun _ => .refl _
  | .ret value =>
      rw [Stmt.eval, Stmt.eval]
      exact .bind (Expr.eval_deepens _ value) fun _ => .refl _
  | .expr value => exact Expr.eval_deepens site value

theorem Stmt.evalList_deepens (site : Site) (index : Nat) (before : Value)
    (stmts : List Stmt) :
    Deepens (Stmt.evalList call env site index before stmts)
      (Stmt.evalList call' env site index before stmts) := by
  match stmts with
  | [] => exact .refl _
  | stmt :: stmts =>
      rw [Stmt.evalList, Stmt.evalList]
      exact .bind (.holding before (Stmt.eval_deepens _ stmt))
        fun value => Stmt.evalList_deepens site (index + 1) value stmts

theorem Expr.evalList_deepens (site : Site) (index : Nat) (exprs : List Expr) :
    Deepens (Expr.evalList call env site index exprs)
      (Expr.evalList call' env site index exprs) := by
  match exprs with
  | [] => exact .refl _
  | expr :: exprs =>
      rw [Expr.evalList, Expr.evalList]
      apply Deepens.bind (Expr.eval_deepens _ expr)
      intro value
      exact .bind (.keeping value (Expr.evalList_deepens site (index + 1) exprs)) fun _ => .refl _

end

end

theorem Closure.apply_deepens {depth deeper : Nat} (more : depth ≤ deeper) (closure : Closure)
    (arguments : List Value) :
    Deepens (Closure.apply depth closure arguments) (Closure.apply deeper closure arguments) := by
  induction depth generalizing deeper closure arguments with
  | zero => exact fun store => Or.inl ⟨_, Closure.apply_zero⟩
  | succ depth ih =>
      intro store
      obtain ⟨deeper, rfl⟩ := Nat.exists_eq_add_one_of_ne_zero (Nat.ne_zero_of_lt more)
      by_cases fits : closure.parameters.length = arguments.length
      · cases live : store.isLive closure.home with
        | false =>
            rw [Closure.apply_of_released _ fits live, Closure.apply_of_released _ fits live]
            exact Or.inr rfl
        | true =>
            rw [Closure.apply_of_live _ fits live, Closure.apply_of_live _ fits live]
            refine Deepens.inFrame _ (Stmt.evalList_deepens ?_ _ _ _ _) _
            exact fun closure arguments => ih (Nat.le_of_succ_le_succ more) closure arguments
      · rw [Closure.apply_of_wrongCount _ fits, Closure.apply_of_wrongCount _ fits]
        exact Or.inr rfl

namespace Program

/-- A program run with more depth ends as it did, if it did. -/
theorem eval_deepens {depth deeper : Nat} (more : depth ≤ deeper) (env : FrameId) (base : Nat)
    (program : Program) :
    Deepens (program.eval depth env base) (program.eval deeper env base) :=
  Stmt.evalList_deepens (Closure.apply_deepens more) [] base .null program

/-- Some depth is enough for the program to end like this. -/
def Ends (program : Program) (env : FrameId) (base : Nat) (store : Store) (outcome : Outcome)
    (after : Store) : Prop :=
  outcome ≠ .tooDeep ∧ ∃ depth, (program.eval depth env base).outcome store = (outcome, after)

theorem outcome_of_le {depth deeper : Nat} (more : depth ≤ deeper) {env : FrameId} {base : Nat}
    {program : Program} {store after : Store} {outcome : Outcome}
    (ended : (program.eval depth env base).outcome store = (outcome, after))
    (enough : outcome ≠ .tooDeep) :
    (program.eval deeper env base).outcome store = (outcome, after) := by
  rcases eval_deepens more env base program store with ⟨last, tooDeep⟩ | same
  · rw [Eval.outcome, tooDeep] at ended
    cases ended
    exact absurd rfl enough
  · rw [Eval.outcome, same]
    exact ended

/-- A program ends in one way only. -/
theorem Ends.unique {env : FrameId} {base : Nat} {program : Program}
    {store after after' : Store} {outcome outcome' : Outcome}
    (first : program.Ends env base store outcome after)
    (second : program.Ends env base store outcome' after') :
    outcome = outcome' ∧ after = after' := by
  obtain ⟨enough, depth, ended⟩ := first
  obtain ⟨enough', depth', ended'⟩ := second
  have reached := outcome_of_le (Nat.le_max_left depth depth') ended enough
  rw [outcome_of_le (Nat.le_max_right depth depth') ended' enough'] at reached
  cases reached
  exact ⟨rfl, rfl⟩

end Program

end Monkey
