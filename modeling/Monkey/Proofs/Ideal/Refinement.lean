/-
# Counting holds refines evaluation with frames that last

Evaluation over a counted store and evaluation over a heap in which frames last go side
by side. From a store that matches the heap they either end alike, and match again, or
the first one has called a function whose home is gone. That the frames in use are live
is a matter of the accounts, which every step keeps; so the two are followed together,
each step from a store whose accounts are right.
-/

import Mathlib
import Monkey.Proofs.Eval.Built
import Monkey.Proofs.Eval.Depth
import Monkey.Proofs.Ideal.Matching

namespace Monkey

/-- A signal whose value has captured nothing. -/
def Signal.ideal : Signal → Ideal.Signal
  | .returned value => .returned value.ideal
  | .failed fault => .failed fault
  | .tooDeep => .tooDeep

namespace Eval

section

variable {α α' β β' : Type}

/-- Two evaluations have ended alike, unless the first one has met a released home. -/
inductive Agrees (toIdeal : α → α') :
    EStateM.Result Signal Store α → EStateM.Result Ideal.Signal Ideal.Heap α' → Prop
  | released (store : Store) (ended : EStateM.Result Ideal.Signal Ideal.Heap α') :
    Agrees toIdeal (.error (.failed .releasedEnvironment) store) ended
  | value (result : α) {store : Store} {heap : Ideal.Heap} (matched : store.Matches heap) :
    Agrees toIdeal (.ok result store) (.ok (toIdeal result) heap)
  | signal (signal : Signal) {store : Store} {heap : Ideal.Heap} (matched : store.Matches heap) :
    Agrees toIdeal (.error signal store) (.error signal.ideal heap)

/-- Started from a store with right accounts and a heap that it matches, the two evaluations
end alike. -/
def Follows (held given : List Hold) (counted : Eval α) (lasting : Ideal.Eval α')
    (toIdeal : α → α') : Prop :=
  ∀ store heap, store.Balanced (given ++ held) → store.Matches heap →
    Agrees toIdeal (counted store) (lasting heap)

namespace Follows

variable {held : List Hold}

/-! ## Plain steps -/

theorem value (given : List Hold) (result : α) (toIdeal : α → α') :
    Follows held given (pure result) (pure (toIdeal result)) toIdeal :=
  fun _ _ _ matched => .value result matched

theorem signal (given : List Hold) (signal : Signal) (toIdeal : α → α') :
    Follows held given (throw signal) (throw signal.ideal) toIdeal :=
  fun _ _ _ matched => .signal signal matched

theorem bind {given : List Hold} {first : Eval α} {middle : α → List Hold}
    {first' : Ideal.Eval α'} {toMiddle : α → α'} {second : α → Eval β}
    {second' : α' → Ideal.Eval β'} {toIdeal : β → β'}
    (transfers : Transfers (fun held store => store.Balanced held) held given first middle)
    (isFirst : Follows held given first first' toMiddle)
    (isSecond : ∀ result,
      Follows held (middle result) (second result) (second' (toMiddle result)) toIdeal) :
    Follows held given (first >>= second) (first' >>= second') toIdeal := by
  intro store heap balanced matched
  have ended := transfers store balanced
  have agreed := isFirst store heap balanced matched
  show Agrees toIdeal (EStateM.bind first second store) (EStateM.bind first' second' heap)
  unfold EStateM.bind
  generalize first store = reached at ended agreed ⊢
  generalize first' heap = reached' at agreed ⊢
  cases agreed with
  | released after _ => exact .released after _
  | value result matched => exact isSecond result _ _ ended matched
  | signal signal matched => exact .signal signal matched

/-! ## Values in hand -/

theorem holding {value : Value} {inner : Eval α} {inner' : Ideal.Eval α'} {toIdeal : α → α'}
    (isInner : Follows (.value value :: held) [] inner inner' toIdeal) :
    Follows held [.value value] (Eval.holding value inner) inner' toIdeal := by
  intro store heap balanced matched
  have agreed := isInner store heap balanced matched
  unfold Eval.holding
  generalize inner store = reached at agreed ⊢
  generalize inner' heap = reached' at agreed ⊢
  cases agreed with
  | released after _ => exact .released _ _
  | value result matched => exact .value result (matched.release value.captured)
  | signal signal matched => exact .signal signal (matched.release value.captured)

theorem keeping {value : Value} {inner : Eval α} {inner' : Ideal.Eval α'} {toIdeal : α → α'}
    (isInner : Follows (.value value :: held) [] inner inner' toIdeal) :
    Follows held [.value value] (Eval.keeping value inner) inner' toIdeal := by
  intro store heap balanced matched
  have agreed := isInner store heap balanced matched
  unfold Eval.keeping
  generalize inner store = reached at agreed ⊢
  generalize inner' heap = reached' at agreed ⊢
  cases agreed with
  | released after _ => exact .released _ _
  | value result matched => exact .value result matched
  | signal signal matched => exact .signal signal (matched.release value.captured)

/-- A scope that is held is live. -/
theorem isLive_of_inScope {env : FrameId} (inScope : Hold.scope env ∈ held) {store : Store}
    (balanced : store.Balanced held) : store.isLive env = true :=
  Store.isLive_of_mem_held balanced inScope (List.mem_singleton.mpr rfl)

theorem lookup {env : FrameId} (inScope : Hold.scope env ∈ held) (name : String) :
    Follows held [] (Eval.lookup env name) (Ideal.lookup env name) Value.ideal := by
  intro store heap balanced matched
  have same := matched.resolve balanced (isLive_of_inScope inScope balanced) name
  rw [lookup_apply, Ideal.lookup_apply, same]
  cases store.resolve env name with
  | some value => exact .value value (matched.retain value.captured)
  | none => exact .signal _ matched

theorem bindName {env : FrameId} (inScope : Hold.scope env ∈ held) (name : String)
    (value : Value) :
    Follows held [.value value] (Eval.bind env name value) (Ideal.bind env name value.ideal)
      fun _ => () := by
  intro store heap balanced matched
  have live := isLive_of_inScope (List.mem_cons_of_mem _ inScope) balanced
  have retained : (store.retain value.captured).isLive env = true := by
    rw [Store.isLive_retain, live]
  exact .value () ((matched.retain value.captured).define retained name value)

/-- Operations whose outcomes agree can be followed. -/
theorem ofExcept {outcome : Except Fault Value} {outcome' : Except Fault Ideal.Value}
    (same : outcome' = outcome.map Value.ideal) :
    Follows held [] (Eval.ofExcept outcome) (Ideal.ofExcept outcome') Value.ideal := by
  subst same
  cases outcome with
  | ok value => exact .value [] value Value.ideal
  | error fault => exact .signal [] (.failed fault) Value.ideal

/-! ## Calls -/

theorem inFrame {frame : FrameId} {body : Eval Value} {body' : Ideal.Eval Ideal.Value}
    (isBody : Follows (.scope frame :: held) [] body body' Value.ideal) :
    Follows held [.scope frame] (Eval.inFrame frame body) (Ideal.unwrap body') Value.ideal := by
  have leaving (value : Value) {store : Store} {heap : Ideal.Heap}
      (matched : store.Matches heap) :
      Agrees Value.ideal (Eval.inFrame.leave frame value store) (.ok value.ideal heap) := by
    cases value with
    | function closure => exact .value (Value.function (closure.returnedFrom frame)) matched
    | _ => exact .value _ (matched.release [frame])
  intro store heap balanced matched
  have agreed := isBody store heap balanced matched
  unfold Eval.inFrame Ideal.unwrap
  generalize body store = reached at agreed ⊢
  generalize body' heap = reached' at agreed ⊢
  cases agreed with
  | released after _ => exact .released _ _
  | value result matched => exact leaving result matched
  | signal signal matched =>
      cases signal with
      | returned value => exact leaving value matched
      | failed fault => exact .signal (.failed fault) (matched.release [frame])
      | tooDeep => exact .signal .tooDeep (matched.release [frame])

/-- Binding parameters changes both sides alike. The frame is held meanwhile, so it stays. -/
theorem defineAll {env : FrameId} (inScope : Hold.scope env ∈ held)
    {bindings : List (String × Value)} {store : Store} {heap : Ideal.Heap}
    (balanced : store.Balanced (Hold.values (bindings.map Prod.snd) ++ held))
    (matched : store.Matches heap) :
    (store.defineAll env bindings).Matches
      (heap.defineAll env (bindings.map (Prod.map id Value.ideal))) := by
  induction bindings generalizing store heap with
  | nil => exact matched
  | cons binding bindings ih =>
      have inScope := List.mem_append_right (Hold.values (bindings.map Prod.snd)) inScope
      have live := isLive_of_inScope (List.mem_cons_of_mem _ inScope) balanced
      exact ih (Store.balanced_invariant.define balanced inScope binding.1)
        (matched.define live binding.1 binding.2)

/-- A call enters a frame of the same name on both sides, with the same bindings. -/
theorem enterCall {closure : Closure} {arguments : List Value} {store : Store}
    {heap : Ideal.Heap} (balanced : store.Balanced (Hold.values arguments ++ held))
    (isHeld : Hold.value (.function closure) ∈ held)
    (fits : closure.parameters.length = arguments.length)
    (live : store.isLive closure.home = true) (matched : store.Matches heap) :
    (closure.entered arguments store).Matches
      ((heap.alloc (some closure.home)).2.defineAll (Closure.callFrame store)
        (closure.parameters.zip (arguments.map Value.ideal))) := by
  have allocated := Store.balanced_invariant.enter balanced (List.mem_append_right _ isHeld) live
  have given : (store.alloc (some closure.home)).2.Balanced
      (Hold.values ((closure.parameters.zip arguments).map Prod.snd) ++
        .scope (Closure.callFrame store) :: held) := by
    rw [List.map_snd_zip (Nat.le_of_eq fits.symm)]
    exact Store.balanced_invariant.perm allocated List.perm_middle.symm
  rw [List.zip_map_right]
  exact defineAll List.mem_cons_self given (matched.alloc (some closure.home))

end Follows

end

end Eval

open Eval

section

-- In a mutual block every theorem takes all the assumptions that one of them uses.
set_option linter.unusedSectionVars false

variable {call : Closure → List Value → Eval Value}
  (calls : ∀ held closure arguments, Hold.value (.function closure) ∈ held →
    Transfers (fun held store => store.Balanced held) held (Hold.values arguments)
      (call closure arguments) fun value => [.value value])
  {call' : Ideal.Closure → List Ideal.Value → Ideal.Eval Ideal.Value}
  (followed : ∀ held closure arguments, Hold.value (.function closure) ∈ held →
    Follows held (Hold.values arguments) (call closure arguments)
      (call' closure.ideal (arguments.map Value.ideal)) Value.ideal)
  {env : FrameId}

include calls followed

mutual

theorem Expr.eval_follows {held : List Hold} (inScope : Hold.scope env ∈ held) (site : Site)
    (expr : Expr) :
    Follows held [] (expr.eval call env site) (Ideal.evalExpr call' env site expr)
      Value.ideal := by
  match expr with
  | .ident name => exact .lookup inScope name
  | .int value => exact .value [] (.int value) Value.ideal
  | .bool value => exact .value [] (.bool value) Value.ideal
  | .fn parameters body =>
      exact .value [] (.function ⟨parameters, body, site, env, []⟩) Value.ideal
  | .prefixOp op operand =>
      rw [Expr.eval, Ideal.evalExpr]
      apply Follows.bind (Expr.eval_transfers Store.balanced_invariant calls inScope _ operand)
        (Expr.eval_follows inScope _ operand)
      intro operand
      apply Follows.holding
      exact .ofExcept (op.apply_ideal operand)
  | .infixOp op left right =>
      rw [Expr.eval, Ideal.evalExpr]
      apply Follows.bind (Expr.eval_transfers Store.balanced_invariant calls inScope _ left)
        (Expr.eval_follows inScope _ left)
      intro left
      apply Follows.holding
      have inScope := List.mem_cons_of_mem (Hold.value left) inScope
      apply Follows.bind (Expr.eval_transfers Store.balanced_invariant calls inScope _ right)
        (Expr.eval_follows inScope _ right)
      intro right
      apply Follows.holding
      exact .ofExcept (op.apply_ideal left right)
  | .ifElse condition consequence none =>
      rw [Expr.eval, Ideal.evalExpr]
      apply Follows.bind (Expr.eval_transfers Store.balanced_invariant calls inScope _ condition)
        (Expr.eval_follows inScope _ condition)
      intro condition
      apply Follows.holding
      have inScope := List.mem_cons_of_mem (Hold.value condition) inScope
      rw [condition.truthy_ideal]
      split
      · exact Stmt.evalList_follows inScope _ _ .null consequence
      · exact .value [] .null Value.ideal
  | .ifElse condition consequence (some alternative) =>
      rw [Expr.eval, Ideal.evalExpr]
      apply Follows.bind (Expr.eval_transfers Store.balanced_invariant calls inScope _ condition)
        (Expr.eval_follows inScope _ condition)
      intro condition
      apply Follows.holding
      have inScope := List.mem_cons_of_mem (Hold.value condition) inScope
      rw [condition.truthy_ideal]
      split
      · exact Stmt.evalList_follows inScope _ _ .null consequence
      · exact Stmt.evalList_follows inScope _ _ .null alternative
  | .call callee arguments =>
      rw [Expr.eval, Ideal.evalExpr]
      apply Follows.bind (Expr.eval_transfers Store.balanced_invariant calls inScope _ callee)
        (Expr.eval_follows inScope _ callee)
      intro callee
      apply Follows.holding
      cases callee with
      | function closure =>
          have inScope := List.mem_cons_of_mem (Hold.value (.function closure)) inScope
          apply Follows.bind
            (Expr.evalList_transfers Store.balanced_invariant calls inScope _ _ arguments)
            (Expr.evalList_follows inScope _ _ arguments)
          exact fun values => followed _ closure values List.mem_cons_self
      | _ => exact .signal [] (.failed (.notAFunction _)) Value.ideal

theorem Stmt.eval_follows {held : List Hold} (inScope : Hold.scope env ∈ held) (site : Site)
    (stmt : Stmt) :
    Follows held [] (stmt.eval call env site) (Ideal.evalStmt call' env site stmt)
      Value.ideal := by
  match stmt with
  | .letBind name value =>
      rw [Stmt.eval, Ideal.evalStmt]
      apply Follows.bind (Expr.eval_transfers Store.balanced_invariant calls inScope _ value)
        (Expr.eval_follows inScope _ value)
      intro value
      apply Follows.bind (.bindName Store.balanced_invariant inScope name value)
        (.bindName inScope name value)
      intro _
      exact .value [.value value] value Value.ideal
  | .ret value =>
      rw [Stmt.eval, Ideal.evalStmt]
      apply Follows.bind (Expr.eval_transfers Store.balanced_invariant calls inScope _ value)
        (Expr.eval_follows inScope _ value)
      intro value
      exact .signal [.value value] (.returned value) Value.ideal
  | .expr value => exact Expr.eval_follows inScope site value

theorem Stmt.evalList_follows {held : List Hold} (inScope : Hold.scope env ∈ held)
    (site : Site) (index : Nat) (before : Value) (stmts : List Stmt) :
    Follows held [.value before] (Stmt.evalList call env site index before stmts)
      (Ideal.evalBlock call' env site index before.ideal stmts) Value.ideal := by
  match stmts with
  | [] => exact .value [.value before] before Value.ideal
  | stmt :: stmts =>
      rw [Stmt.evalList, Ideal.evalBlock]
      have inner := List.mem_cons_of_mem (Hold.value before) inScope
      have first := Stmt.eval_transfers Store.balanced_invariant calls inner
      exact .bind (.holding Store.balanced_invariant (fun value => [value]) (first _ stmt))
        (.holding (Stmt.eval_follows inner _ stmt))
        fun value => Stmt.evalList_follows inScope site (index + 1) value stmts

theorem Expr.evalList_follows {held : List Hold} (inScope : Hold.scope env ∈ held)
    (site : Site) (index : Nat) (exprs : List Expr) :
    Follows held [] (Expr.evalList call env site index exprs)
      (Ideal.evalArguments call' env site index exprs) (List.map Value.ideal) := by
  match exprs with
  | [] => exact .value [] [] (List.map Value.ideal)
  | expr :: exprs =>
      rw [Expr.evalList, Ideal.evalArguments]
      apply Follows.bind (Expr.eval_transfers Store.balanced_invariant calls inScope _ expr)
        (Expr.eval_follows inScope _ expr)
      intro value
      have inner := List.mem_cons_of_mem (Hold.value value) inScope
      have others := Expr.evalList_transfers Store.balanced_invariant calls inner site
      apply Follows.bind (.keeping Store.balanced_invariant id (others (index + 1) exprs))
        (.keeping (Expr.evalList_follows inner site (index + 1) exprs))
      intro values
      exact .value _ (value :: values) (List.map Value.ideal)

end

end

/-- A call is made in frames of one name, bound to arguments that correspond. -/
theorem Closure.apply_follows (depth : Nat) (held : List Hold) (closure : Closure)
    (arguments : List Value) (isHeld : Hold.value (.function closure) ∈ held) :
    Follows held (Hold.values arguments) (Closure.apply depth closure arguments)
      (Ideal.apply depth closure.ideal (arguments.map Value.ideal)) Value.ideal := by
  induction depth generalizing held closure arguments with
  | zero => exact fun store heap _ matched => .signal .tooDeep (matched.release _)
  | succ depth ih =>
      intro store heap balanced matched
      by_cases fits : closure.parameters.length = arguments.length
      · cases live : store.isLive closure.home with
        | false =>
            rw [Closure.apply_of_released depth fits live]
            exact .released _ _
        | true =>
            have fits' : closure.ideal.parameters.length = (arguments.map Value.ideal).length := by
              rw [List.length_map]
              exact fits
            rw [Closure.apply_of_live depth fits live, Ideal.apply_of_fits depth fits',
              matched.fresh_eq (some closure.ideal.home)]
            have entered := Store.balanced_invariant.enterCall balanced isHeld fits live
            have enteredBoth := Follows.enterCall balanced isHeld fits live matched
            apply Follows.inFrame _ _ _ entered enteredBoth
            apply Stmt.evalList_follows _ ih List.mem_cons_self _ _ .null closure.body
            exact fun held closure arguments =>
              Closure.apply_transfers Store.balanced_invariant depth held closure arguments
      · have wrong : closure.ideal.parameters.length ≠ (arguments.map Value.ideal).length := by
          rw [List.length_map]
          exact fits
        rw [Closure.apply_of_wrongCount depth fits, Ideal.apply_of_wrongCount depth wrong,
          List.length_map]
        exact .signal (.failed _) (matched.release _)

/-! ## Programs -/

/-- An outcome whose value has captured nothing. -/
def Outcome.ideal : Outcome → Ideal.Outcome
  | .value result => .value result.ideal
  | .returned result => .returned result.ideal
  | .failed fault => .failed fault
  | .tooDeep => .tooDeep

theorem Outcome.ideal_eq_tooDeep {outcome : Outcome} :
    outcome.ideal = .tooDeep ↔ outcome = .tooDeep := by
  cases outcome <;> simp [ideal]

/-- Run with the same depth, a program ends alike on both sides or has met a released home. -/
theorem Program.run_follows (depth : Nat) {held : List Hold} {env : FrameId}
    (inScope : Hold.scope env ∈ held) (base : Nat) (program : Program) {store : Store}
    {heap : Ideal.Heap} (balanced : store.Balanced held) (matched : store.Matches heap) :
    ((program.eval depth env base).outcome store).1 = .failed .releasedEnvironment ∨
      (Ideal.run depth env base program heap).1 =
          ((program.eval depth env base).outcome store).1.ideal ∧
        ((program.eval depth env base).outcome store).2.Matches
          (Ideal.run depth env base program heap).2 := by
  have follows : Follows held [.value .null] (program.eval depth env base)
      (Ideal.evalBlock (Ideal.apply depth) env [] base .null program) Value.ideal :=
    Stmt.evalList_follows
      (fun held closure arguments =>
        Closure.apply_transfers Store.balanced_invariant depth held closure arguments)
      (Closure.apply_follows depth) inScope [] base .null program
  have agreed := follows store heap (Store.balanced_invariant.startBlock balanced) matched
  unfold Eval.outcome Ideal.run
  generalize program.eval depth env base store = reached at agreed ⊢
  generalize Ideal.evalBlock (Ideal.apply depth) env [] base .null program heap = reached'
    at agreed ⊢
  cases agreed with
  | released after _ => exact Or.inl rfl
  | value result matched => exact Or.inr ⟨rfl, matched⟩
  | signal signal matched => cases signal <;> exact Or.inr ⟨rfl, matched⟩

/-- A program ends as it would if frames lasted, with the same bindings in every live frame,
unless it calls a function whose home is gone. -/
theorem Store.Built.ends_as_ideal {store : Store} {held : List Hold} {env : FrameId}
    {heap : Ideal.Heap} (built : store.Built held) (inScope : Hold.scope env ∈ held)
    (matched : store.Matches heap) (base : Nat) (program : Program) :
    (∀ outcome after, program.Ends env base store outcome after →
      outcome ≠ .failed .releasedEnvironment →
      ∃ last, Ideal.Ends env base program heap outcome.ideal last ∧ after.Matches last) ∧
    ∀ outcome last, Ideal.Ends env base program heap outcome last →
      ∃ ended after, program.Ends env base store ended after ∧
        (ended = .failed .releasedEnvironment ∨ ended.ideal = outcome ∧ after.Matches last) := by
  constructor
  · rintro outcome after ⟨enough, depth, ended⟩ notReleased
    have same := Program.run_follows depth inScope base program built.balanced matched
    rw [ended] at same
    rcases same with released | ⟨alike, matched⟩
    · exact absurd released notReleased
    · refine ⟨_, ⟨mt Outcome.ideal_eq_tooDeep.mp enough, depth, ?_⟩, matched⟩
      exact Prod.ext alike rfl
  · rintro outcome last ⟨enough, depth, ended⟩
    have same := Program.run_follows depth inScope base program built.balanced matched
    rcases isCounted : (program.eval depth env base).outcome store with ⟨counted, after⟩
    rw [ended, isCounted] at same
    refine ⟨counted, after, ⟨?_, depth, isCounted⟩, ?_⟩
    · rintro rfl
      rcases same with released | ⟨alike, -⟩
      · cases released
      · exact enough alike
    · exact same.imp id fun ⟨alike, matched⟩ => ⟨alike.symm, matched⟩

/-- A function made by one call and called by another adds what it was made with. -/
theorem Session.start_adder_ends_as_ideal :
    ∃ program last,
      (parse "let adder = fn(x) \x7b fn(y) \x7b x + y \x7d \x7d; adder(2)(3)").toExcept =
        .ok program ∧
      Ideal.Ends start.global 0 program start.store.ideal (.value (.int 5)) last := by
  let program : Program := [
    .letBind "adder" (.fn ["x"]
      [.expr (.fn ["y"] [.expr (.infixOp .plus (.ident "x") (.ident "y"))])]),
    .expr (.call (.call (.ident "adder") [.int 2]) [.int 3])]
  have inScope : Hold.scope start.global ∈ [Hold.scope start.global] := List.mem_cons_self
  have sides := start_built.ends_as_ideal inScope start.store.matches_ideal 0 program
  have ended : program.Ends start.global 0 start.store (.value (.int 5))
      ((program.eval 2 start.global 0).outcome start.store).2 :=
    ⟨by simp, 2, Prod.ext (by cbv) rfl⟩
  obtain ⟨last, ends, -⟩ := sides.1 _ _ ended (by simp)
  exact ⟨program, last, by cbv, ends⟩

end Monkey
