/-
# Invariants of evaluation

A property of the store and of what is held in it, once it survives each step of an
evaluation, survives every evaluation, whatever calls that makes and however it ends. It
does not matter in which order things are held, and calls need not comply with anything.
-/

import Monkey.Proofs.Eval.Discipline

namespace Monkey

open Eval

/-- An evaluation stays in a frame for as long as the frame is held. -/
theorem Eval.Invariant.discipline {I : List Hold → Store → Prop} (invariant : Invariant I)
    (complies : Call → Prop) :
    Discipline (fun env held => Hold.scope env ∈ held) complies I where
  inHand isHeld _ := List.mem_cons_of_mem _ isHeld
  inFrame _ _ := List.mem_cons_self
  arrange kept same := invariant.perm kept ((same.map Hold.value).append_right _)
  plain := invariant.plain
  literal := invariant.literal
  found := invariant.found
  copy kept := invariant.copy kept List.mem_cons_self
  drop := invariant.drop
  define := invariant.define
  enter _ kept _ live := invariant.perm
    (invariant.enter kept (List.mem_append_right _ List.mem_cons_self) live)
    List.perm_middle.symm
  handOver _ _ kept := invariant.leave kept

section

variable {I : List Hold → Store → Prop} {held : List Hold}

/-- An action under no condition. -/
theorem Eval.Keeps.transfers {α : Type} {given : List Value} {action : Eval α}
    {makes : Store → Call → Prop} {gained : α → List Value}
    (keeps : Keeps (fun _ => True) I held given action makes gained) :
    Transfers I held (Hold.values given) action fun result => Hold.values (gained result) :=
  fun store kept => (keeps store kept fun _ _ => trivial).1

variable (invariant : Invariant I)

include invariant

/-! ## Values in hand -/

theorem Eval.Transfers.holding {α : Type} {value : Value} {inner : Eval α}
    (gained : α → List Value)
    (isInner : Transfers I (.value value :: held) [] inner fun result => Hold.values (gained result)) :
    Transfers I held [.value value] (Eval.holding value inner)
      fun result => Hold.values (gained result) :=
  ((invariant.discipline _).holding (.quiet isInner)).transfers

theorem Eval.Transfers.keeping {α : Type} {value : Value} {inner : Eval α}
    (gained : α → List Value)
    (isInner : Transfers I (.value value :: held) [] inner fun result => Hold.values (gained result)) :
    Transfers I held [.value value] (Eval.keeping value inner)
      fun result => Hold.values (value :: gained result) :=
  ((invariant.discipline _).keeping (.quiet isInner)).transfers

theorem Eval.Transfers.bindName {env : FrameId} (inScope : Hold.scope env ∈ held) (name : String)
    (value : Value) :
    Transfers I held [.value value] (Eval.bind env name value) fun _ => [.value value] :=
  (invariant.discipline fun _ => True).bindName inScope name value

/-! ## Calls and programs -/

/-- A call that passes its checks enters a frame of its own, in which its arguments are. -/
theorem Eval.Invariant.enterCall {closure : Closure} {arguments : List Value} {store : Store}
    (kept : I (Hold.values arguments ++ held) store)
    (isHeld : Hold.value (.function closure) ∈ held)
    (fits : closure.parameters.length = arguments.length)
    (live : store.isLive closure.home = true) :
    I (.scope (Closure.callFrame store) :: held) (closure.entered arguments store) := by
  have latest := List.perm_cons_erase isHeld
  have entered := (invariant.discipline fun _ => True).enterCall trivial
    (invariant.perm kept (latest.append_left _)) fits live
  exact invariant.perm entered (latest.symm.cons _)

/-- The callee of a call is held, so it can be taken for the latest hold. -/
theorem Eval.Invariant.ofCallee {closure : Closure} {given : List Hold} {action : Eval Value}
    (isHeld : Hold.value (.function closure) ∈ held)
    (transfers : ∀ rest, Transfers I (.value (.function closure) :: rest) given action
      fun value => [.value value]) :
    Transfers I held given action fun value => [.value value] := by
  have latest := List.perm_cons_erase isHeld
  intro store kept
  have ended := transfers _ store (invariant.perm kept (latest.append_left given))
  generalize action store = reached at ended ⊢
  cases reached with
  | ok value after => exact invariant.perm ended (latest.symm.append_left _)
  | error signal after => exact invariant.perm ended (latest.symm.append_left _)

/-- A call uses up the holds on its arguments and ends with a hold on its value. -/
theorem Closure.apply_transfers (depth : Nat) (held : List Hold) (closure : Closure)
    (arguments : List Value) (isHeld : Hold.value (.function closure) ∈ held) :
    Transfers I held (Hold.values arguments) (Closure.apply depth closure arguments)
      fun value => [.value value] :=
  invariant.ofCallee isHeld fun rest =>
    (Closure.apply_keeps (invariant.discipline _) depth rest closure arguments).transfers

/-- A program run in a held frame ends with a hold on its value. -/
theorem Program.eval_transfers (depth : Nat) {env : FrameId} (inScope : Hold.scope env ∈ held)
    (base : Nat) (program : Program) :
    Transfers I held [] (program.eval depth env base) fun value => [.value value] :=
  (Program.eval_keeps (invariant.discipline _) depth inScope base program).transfers

/-- An invariant of evaluation holds at every call that a program makes, with everything
that is held there. -/
theorem Program.keeps_of_makes {depth : Nat} {env : FrameId} {base : Nat} {program : Program}
    {store : Store} {made : Call} (inScope : Hold.scope env ∈ held) (kept : I held store)
    (makes : program.Makes depth env held base store made) : I made.held made.store :=
  ((Program.eval_keeps (invariant.discipline fun _ => True) depth inScope base program store kept
    fun _ _ => trivial).2 made makes).2

end

/-! ## Evaluations around calls -/

/-- What is said of the calls inside calls if nothing is to be said of them. -/
def Call.nothing (_ : List Hold) (_ : Closure) (_ : List Value) (_ : Store) (_ : Call) : Prop :=
  False

section

variable {I : List Hold → Store → Prop} (invariant : Invariant I)
  {call : Closure → List Value → Eval Value}
  (calls : ∀ held closure arguments, Hold.value (.function closure) ∈ held →
    Transfers I held (Hold.values arguments) (call closure arguments) fun value => [.value value])
  {held : List Hold} {env : FrameId} (inScope : Hold.scope env ∈ held)

include calls

theorem Eval.Transfers.keeps (held : List Hold) (closure : Closure) (arguments : List Value) :
    Keeps (fun _ => True) I (.value (.function closure) :: held) arguments (call closure arguments)
      (Call.nothing (.value (.function closure) :: held) closure arguments) fun value => [value] :=
  .quiet (calls _ closure arguments List.mem_cons_self)

include invariant inScope

theorem Expr.eval_transfers (site : Site) (expr : Expr) :
    Transfers I held [] (expr.eval call env site) fun value => [.value value] :=
  (Expr.eval_keeps (invariant.discipline _) (Transfers.keeps calls) inScope site expr).transfers

theorem Stmt.eval_transfers (site : Site) (stmt : Stmt) :
    Transfers I held [] (stmt.eval call env site) fun value => [.value value] :=
  (Stmt.eval_keeps (invariant.discipline _) (Transfers.keeps calls) inScope site stmt).transfers

theorem Expr.evalList_transfers (site : Site) (index : Nat) (exprs : List Expr) :
    Transfers I held [] (Expr.evalList call env site index exprs) Hold.values :=
  (Expr.evalList_keeps (invariant.discipline _) (Transfers.keeps calls) inScope site index
    exprs).transfers

end

end Monkey
