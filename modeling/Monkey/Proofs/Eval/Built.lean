/-
# Stores that programs have built

Whoever runs programs makes scopes for them, one inside another if need be, and runs one
program after another in them. It may keep a scope, or what a program has ended with,
for as long as it likes, and give it up at any time. An invariant of evaluation that
holds of new scopes therefore holds of every store that comes about in this way, with
everything that is still held in it.
-/

import Monkey.Proofs.Eval.Accounts

namespace Monkey

/-- What is held for the value of an outcome. -/
def Outcome.holds : Outcome → List Hold
  | .value result => [.value result]
  | .returned result => [.value result]
  | .failed _ => []
  | .tooDeep => []

/-- An evaluation ends with the holds of its outcome. -/
theorem Eval.Leaves.outcome {I : List Hold → Store → Prop} {held : List Hold}
    {action : Eval Value} {store : Store}
    (ended : Leaves I held (fun value => [.value value]) (action store)) :
    I ((action.outcome store).1.holds ++ held) (action.outcome store).2 := by
  unfold Eval.outcome
  generalize action store = reached at ended ⊢
  cases reached with
  | ok value after => exact ended
  | error signal after => cases signal <;> exact ended

namespace Store

/-- A store that has been built by running programs, with all that is held in it. -/
inductive Built : Store → List Hold → Prop
  | /-- Nothing has been made. -/
    start : Built empty []
  | /-- A new scope, outermost or inside one that is held. -/
    scope {store : Store} {held : List Hold} (earlier : Built store held)
      (outer : Option FrameId) (isHeld : ∀ around ∈ outer, Hold.scope around ∈ held) :
      Built (store.alloc outer).2 (.scope (store.alloc outer).1 :: held)
  | /-- A program has been run in a scope that is held, and its outcome is held. -/
    run {store : Store} {held : List Hold} (earlier : Built store held) {env : FrameId}
      (inScope : Hold.scope env ∈ held) (depth base : Nat) (program : Program) :
      Built ((program.eval depth env base).outcome store).2
        (((program.eval depth env base).outcome store).1.holds ++ held)
  | /-- Something has been given up. -/
    giveUp {store : Store} {held rest : List Hold} (earlier : Built store held)
      (hold : Hold) (isHeld : held.Perm (hold :: rest)) :
      Built (store.release hold.frames) rest

namespace Built

variable {store : Store} {held : List Hold}

/-- What evaluations and new scopes keep, every store has that programs have built. -/
theorem keeps {I : List Hold → Store → Prop} (invariant : Eval.Invariant I)
    (starts : I [] empty)
    (scopes : ∀ {held store outer}, I held store →
      (∀ around ∈ outer, Hold.scope around ∈ held) →
      I (.scope (store.alloc outer).1 :: held) (store.alloc outer).2)
    (built : Built store held) : I held store := by
  induction built with
  | start => exact starts
  | scope earlier outer isHeld ih => exact scopes ih isHeld
  | run earlier inScope depth base program ih =>
      exact (Program.eval_transfers invariant depth inScope base program _ ih).outcome
  | giveUp earlier hold isHeld ih => exact invariant.drop (invariant.perm ih isHeld)

/-- The accounts of every such store are right. -/
theorem balanced (built : Built store held) : store.Balanced held := by
  refine built.keeps balanced_invariant ?_ ?_
  · intro id
    simp [holds, frame?, empty, cellHolds, links, Hold.allFrames]
  · intro held store outer balanced isHeld
    refine balanced.alloc fun around isAround => ?_
    exact isLive_of_mem_held balanced (isHeld around isAround) (List.mem_singleton.mpr rfl)

end Built

end Store

/-- A session starts with one outermost scope, which it holds. -/
theorem Session.start_built : Session.start.store.Built [.scope Session.start.global] :=
  Store.Built.start.scope none (by simp)

end Monkey
