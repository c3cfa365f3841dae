/-
# The calls that a run makes

A run is an evaluation inside others, and each of the others holds something while it
waits. This module says which calls a run makes, in which stores, and what is held at
each of them by all that surrounds it: the callee, the values of earlier operands and
arguments, the value of the statement before, the condition of a branch, and the frames
of the calls that have not returned. Calls inside a call are made with its frame held.

The description follows the tree, as evaluation does, so a call is made in the store
that the parts evaluated before it have left behind.
-/

import Monkey.Proofs.Eval.Held

namespace Monkey

/-- A call at the moment at which it is made, before any check: what is held around it and
by it, and the store. -/
structure Call where
  held : List Hold
  store : Store
  closure : Closure
  arguments : List Value

/-- The action has a result, and the property holds of it and of the store afterwards. -/
def Eval.After {α : Type} (action : Eval α) (store : Store) (property : α → Store → Prop) :
    Prop :=
  ∃ result after, action store = .ok result after ∧ property result after

theorem Eval.after_congr {α : Type} {action : Eval α} {store : Store}
    {first second : α → Store → Prop}
    (same : ∀ result after, first result after ↔ second result after) :
    action.After store first ↔ action.After store second :=
  exists_congr fun result => exists_congr fun after => and_congr_right fun _ => same result after

section

variable (call : Closure → List Value → Eval Value)
  (inside : List Hold → Closure → List Value → Store → Call → Prop) (env : FrameId)

mutual

/-- The calls made by evaluating an expression, the given things being held around it. -/
def Expr.Makes : List Hold → Site → Expr → Store → Call → Prop
  | _, _, .ident _, _, _ => False
  | _, _, .int _, _, _ => False
  | _, _, .bool _, _, _ => False
  | held, site, .prefixOp _ operand, store, made =>
    operand.Makes held (site.child 0) store made
  | held, site, .infixOp _ left right, store, made =>
    left.Makes held (site.child 0) store made ∨
      (left.eval call env (site.child 0)).After store fun value after =>
        right.Makes (.value value :: held) (site.child 1) after made
  | held, site, .ifElse condition consequence none, store, made =>
    condition.Makes held (site.child 0) store made ∨
      (condition.eval call env (site.child 0)).After store fun value after =>
        value.truthy = true ∧
          Stmt.MakesList (.value value :: held) (site.child 1) 0 .null consequence after made
  | held, site, .ifElse condition consequence (some alternative), store, made =>
    condition.Makes held (site.child 0) store made ∨
      (condition.eval call env (site.child 0)).After store fun value after =>
        if value.truthy then
          Stmt.MakesList (.value value :: held) (site.child 1) 0 .null consequence after made
        else Stmt.MakesList (.value value :: held) (site.child 2) 0 .null alternative after made
  | _, _, .fn _ _, _, _ => False
  | held, site, .call callee arguments, store, made =>
    callee.Makes held (site.child 0) store made ∨
      (callee.eval call env (site.child 0)).After store fun value after =>
        ∃ closure, value = .function closure ∧
          (Expr.MakesList (.value value :: held) (site.child 1) 0 arguments after made ∨
            (Expr.evalList call env (site.child 1) 0 arguments).After after fun values after =>
              inside (.value value :: held) closure values after made)
  termination_by structural _ _ expr => expr

/-- The calls made by evaluating a statement. -/
def Stmt.Makes : List Hold → Site → Stmt → Store → Call → Prop
  | held, site, .letBind _ value, store, made => value.Makes held site store made
  | held, site, .ret value, store, made => value.Makes held site store made
  | held, site, .expr value, store, made => value.Makes held site store made
  termination_by structural _ _ stmt => stmt

/-- The calls made by evaluating statements, the value of the one before in hand. -/
def Stmt.MakesList : List Hold → Site → Nat → Value → List Stmt → Store → Call → Prop
  | _, _, _, _, [], _, _ => False
  | held, site, index, before, stmt :: stmts, store, made =>
    stmt.Makes (.value before :: held) (site.child index) store made ∨
      (Eval.holding before (stmt.eval call env (site.child index))).After store
        fun value after => Stmt.MakesList held site (index + 1) value stmts after made
  termination_by structural _ _ _ _ stmts => stmts

/-- The calls made by evaluating arguments, those that have a value already being held. -/
def Expr.MakesList : List Hold → Site → Nat → List Expr → Store → Call → Prop
  | _, _, _, [], _, _ => False
  | held, site, index, expr :: exprs, store, made =>
    expr.Makes held (site.child index) store made ∨
      (expr.eval call env (site.child index)).After store fun value after =>
        Expr.MakesList (.value value :: held) site (index + 1) exprs after made
  termination_by structural _ _ _ exprs => exprs

end

end

/-- The calls made by a call that is granted a depth: itself, and if it passes its checks
those that its body makes. -/
def Closure.Makes : Nat → List Hold → Closure → List Value → Store → Call → Prop
  | 0, _, _, _, _, _ => False
  | depth + 1, held, closure, arguments, store, made =>
    made = ⟨Hold.values arguments ++ held, store, closure, arguments⟩ ∨
      closure.parameters.length = arguments.length ∧ store.isLive closure.home = true ∧
        Stmt.MakesList (Closure.apply depth) (Closure.Makes depth) (callFrame store)
          (.scope (callFrame store) :: held) (closure.site.child 0) 0 .null closure.body
          (closure.entered arguments store) made

/-- The calls made by running a program in a frame. -/
def Program.Makes (depth : Nat) (env : FrameId) (held : List Hold) (base : Nat)
    (program : Program) (store : Store) (made : Call) : Prop :=
  Stmt.MakesList (Closure.apply depth) (Closure.Makes depth) env held [] base .null program
    store made

end Monkey
