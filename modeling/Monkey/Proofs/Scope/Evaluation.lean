/-
# Programs that find their names

Evaluation keeps the promise that functions were made with. Whatever is evaluated where its
names are found has a value that keeps it too, returned or not, and leaves a heap in which all
functions keep it; so a call finds the names of its body, wherever and however late it is made.
Among the faults that are left none is about a name. What holds where frames last holds of a
program in a store, since the two end alike unless a home is gone, which is another fault.
-/

import Mathlib
import Monkey.Proofs.Ideal.Refinement
import Monkey.Proofs.Scope.Basic

namespace Monkey

namespace Ideal

variable {α β : Type}

/-- An evaluation that found its names ends with what was asked for, or on its way out with a
value, in a heap that has grown and keeps its promises; or else it fails in another way. -/
inductive Finds (before : Heap) (good : Heap → α → Prop) : EStateM.Result Signal Heap α → Prop
  | value {result : α} {after : Heap} (grows : before.Grows after) (bound : after.Bound)
    (isGood : good after result) : Finds before good (.ok result after)
  | returned {result : Value} {after : Heap} (grows : before.Grows after) (bound : after.Bound)
    (isBound : result.Bound after) : Finds before good (.error (.returned result) after)
  | failed {fault : Fault} {after : Heap} (found : ∀ name, fault ≠ .unknownIdentifier name) :
    Finds before good (.error (.failed fault) after)
  | tooDeep {after : Heap} : Finds before good (.error .tooDeep after)

namespace Finds

variable {before heap : Heap} {good : Heap → α → Prop} {good' : Heap → β → Prop}

/-- Where a name is found does not matter if more was found before. -/
theorem earlier (grows : before.Grows heap) {ended : EStateM.Result Signal Heap α}
    (finds : Finds heap good ended) : Finds before good ended := by
  cases finds with
  | value further bound isGood => exact .value (grows.trans further) bound isGood
  | returned further bound isBound => exact .returned (grows.trans further) bound isBound
  | failed found => exact .failed found
  | tooDeep => exact .tooDeep

theorem mono {good good' : Heap → α → Prop} {ended : EStateM.Result Signal Heap α}
    (finds : Finds heap good ended)
    (weaker : ∀ result after, heap.Grows after → good after result → good' after result) :
    Finds heap good' ended := by
  cases finds with
  | value grows bound isGood => exact .value grows bound (weaker _ _ grows isGood)
  | returned grows bound isBound => exact .returned grows bound isBound
  | failed found => exact .failed found
  | tooDeep => exact .tooDeep

theorem bind {first : Eval α} {second : α → Eval β} (isFirst : Finds heap good (first heap))
    (isSecond : ∀ result after, heap.Grows after → after.Bound → good after result →
      Finds after good' (second result after)) :
    Finds heap good' ((first >>= second) heap) := by
  show Finds heap good' (EStateM.bind first second heap)
  rw [EStateM.bind]
  generalize first heap = ended at isFirst ⊢
  cases isFirst with
  | value grows bound isGood => exact (isSecond _ _ grows bound isGood).earlier grows
  | returned grows bound isBound => exact .returned grows bound isBound
  | failed found => exact .failed found
  | tooDeep => exact .tooDeep

theorem pure (bound : heap.Bound) {result : α} (isGood : good heap result) :
    Finds heap good ((Pure.pure result : Eval α) heap) :=
  .value (.refl heap) bound isGood

/-- A name that is found has a value that keeps its promise. -/
theorem lookup (bound : heap.Bound) {env : FrameId} {name : String}
    (found : (heap.resolve env name).isSome = true) :
    Finds heap (fun after value => value.Bound after) (Ideal.lookup env name heap) := by
  obtain ⟨value, isFound⟩ := Option.isSome_iff_exists.mp found
  rw [lookup_apply, isFound]
  exact .value (.refl heap) bound (bound.resolve isFound)

/-- Binding a name makes sure that it is found from then on. -/
theorem bound (bound : heap.Bound) {env : FrameId} {scope : List String}
    (binds : heap.Binds env scope) {name : String} {value : Value}
    (isBound : value.Bound (heap.define env name value)) :
    Finds heap (fun after value => value.Bound after ∧ after.Binds env (name :: scope))
      ((do Ideal.bind env name value; Pure.pure value : Eval Value) heap) :=
  .value (.define heap env name value) (bound.define isBound) ⟨isBound, binds.define name value⟩

theorem unwrap {body : Eval Value}
    (finds : Finds heap (fun after value => value.Bound after) (body heap)) :
    Finds heap (fun after value => value.Bound after) (Ideal.unwrap body heap) := by
  rw [Ideal.unwrap]
  generalize body heap = ended at finds ⊢
  cases finds with
  | value grows bound isGood => exact .value grows bound isGood
  | returned grows bound isBound => exact .value grows bound isBound
  | failed found => exact .failed found
  | tooDeep => exact .tooDeep

theorem operation (bound : heap.Bound) {applied : Except Fault Value}
    (noFunction : ∀ value, applied = .ok value → ∀ after, value.Bound after)
    (noName : ∀ fault, applied = .error fault → ∀ name, fault ≠ .unknownIdentifier name) :
    Finds heap (fun after value => value.Bound after) (ofExcept applied heap) := by
  cases isApplied : applied with
  | ok value => exact .value (.refl heap) bound (noFunction value isApplied heap)
  | error fault => exact .failed (noName fault isApplied)

end Finds

theorem negate_finds {heap : Heap} (bound : heap.Bound) (op : PrefixOp) (operand : Value) :
    Finds heap (fun after value => value.Bound after) (ofExcept (negate op operand) heap) := by
  apply Finds.operation bound
  · intro value isValue after
    cases op <;> cases operand <;> cases isValue <;> trivial
  · intro fault isFault name
    cases op <;> cases operand <;> cases isFault <;> exact nofun

theorem calculate_finds {heap : Heap} (bound : heap.Bound) (op : InfixOp) (left right : Int64) :
    Finds heap (fun after value => value.Bound after) (ofExcept (calculate left right op) heap) := by
  apply Finds.operation bound
  · intro value isValue after
    cases op with
    | divide =>
        rw [calculate] at isValue
        split at isValue <;> cases isValue
        trivial
    | _ =>
        cases isValue
        trivial
  · intro fault isFault name
    cases op with
    | divide =>
        rw [calculate] at isFault
        split at isFault <;> cases isFault
        intro same
        cases same
    | _ => cases isFault

theorem combine_finds {heap : Heap} (bound : heap.Bound) (op : InfixOp) (left right : Value) :
    Finds heap (fun after value => value.Bound after) (ofExcept (combine op left right) heap) := by
  cases left with
  | int first =>
      cases right with
      | int second => exact calculate_finds bound op first second
      | _ => cases op <;> first | exact .value (.refl heap) bound trivial | exact .failed nofun
  | _ =>
      cases right <;> cases op <;>
        first | exact .value (.refl heap) bound trivial | exact .failed nofun

section

-- In a mutual block every theorem takes all the assumptions that one of them uses.
set_option linter.unusedSectionVars false

variable {call : Closure → List Value → Eval Value} {env : FrameId}
  (calls : ∀ closure arguments heap, heap.Bound → closure.Bound heap →
    (∀ argument ∈ arguments, Value.Bound heap argument) →
    Finds heap (fun after value => value.Bound after) (call closure arguments heap))

include calls

mutual

theorem evalExpr_finds (site : Site) (expr : Expr) {scope : List String} {heap : Heap}
    (isBound : expr.isBound scope = true) (bound : heap.Bound) (binds : heap.Binds env scope) :
    Finds heap (fun after value => value.Bound after) (evalExpr call env site expr heap) := by
  match expr with
  | .ident name =>
      exact .lookup bound (binds.found name (of_decide_eq_true isBound))
  | .int value => exact .pure bound trivial
  | .bool value => exact .pure bound trivial
  | .prefixOp op operand =>
      rw [evalExpr]
      apply Finds.bind (evalExpr_finds (site.child 0) operand isBound bound binds)
      intro value after _ bound _
      exact negate_finds bound op value
  | .infixOp op left right =>
      obtain ⟨leftBound, rightBound⟩ := Bool.and_eq_true_iff.mp isBound
      rw [evalExpr]
      apply Finds.bind (evalExpr_finds (site.child 0) left leftBound bound binds)
      intro first between grows bound _
      apply Finds.bind (evalExpr_finds (site.child 1) right rightBound bound (binds.grow grows))
      intro second after _ bound _
      exact combine_finds bound op first second
  | .ifElse condition consequence none =>
      obtain ⟨conditionBound, consequenceBound⟩ := Bool.and_eq_true_iff.mp isBound
      rw [evalExpr]
      apply Finds.bind (evalExpr_finds (site.child 0) condition conditionBound bound binds)
      intro value after grows bound _
      split
      · exact evalBlock_finds _ 0 .null consequence consequenceBound bound (binds.grow grows) trivial
      · exact .pure bound trivial
  | .ifElse condition consequence (some alternative) =>
      obtain ⟨firstBound, alternativeBound⟩ := Bool.and_eq_true_iff.mp isBound
      obtain ⟨conditionBound, consequenceBound⟩ := Bool.and_eq_true_iff.mp firstBound
      rw [evalExpr]
      apply Finds.bind (evalExpr_finds (site.child 0) condition conditionBound bound binds)
      intro value after grows bound _
      split
      · exact evalBlock_finds _ 0 .null consequence consequenceBound bound (binds.grow grows) trivial
      · exact evalBlock_finds _ 0 .null alternative alternativeBound bound (binds.grow grows) trivial
  | .fn parameters body => exact .pure bound ⟨scope, isBound, binds⟩
  | .call callee arguments =>
      obtain ⟨calleeBound, argumentsBound⟩ := Bool.and_eq_true_iff.mp isBound
      rw [evalExpr]
      apply Finds.bind (evalExpr_finds (site.child 0) callee calleeBound bound binds)
      intro value between grows bound isCallee
      cases value with
      | function closure =>
          apply Finds.bind
            (evalArguments_finds (site.child 1) 0 arguments argumentsBound bound (binds.grow grows))
          intro values after further bound areArguments
          exact calls closure values after bound (Value.Bound.grow isCallee further) areArguments
      | _ => exact .failed nofun
  termination_by structural expr

theorem evalStmt_finds (site : Site) (stmt : Stmt) {scope : List String} {heap : Heap}
    (isBound : stmt.isBound scope = true) (bound : heap.Bound) (binds : heap.Binds env scope) :
    Finds heap (fun after value => value.Bound after ∧ after.Binds env (stmt.names ++ scope))
      (evalStmt call env site stmt heap) := by
  match stmt with
  | .letBind name value =>
      cases isFn : value.isFn with
      | false =>
          rw [Stmt.isBound, isFn, if_neg Bool.false_ne_true] at isBound
          rw [evalStmt]
          apply Finds.bind (evalExpr_finds site value isBound bound binds)
          intro result after grows bound isResult
          exact .bound bound (binds.grow grows)
            (Value.Bound.grow isResult (.define after env name result))
      | true =>
          rw [Stmt.isBound, isFn, if_pos rfl] at isBound
          obtain ⟨parameters, body, rfl⟩ := Expr.eq_fn_of_isFn isFn
          exact .bound bound binds ⟨name :: scope, isBound, binds.define name _⟩
  | .ret value =>
      rw [evalStmt]
      apply Finds.bind (evalExpr_finds site value isBound bound binds)
      intro value after _ bound isBound
      exact .returned (.refl after) bound isBound
  | .expr value =>
      rw [evalStmt]
      apply (evalExpr_finds site value isBound bound binds).mono
      intro result after grows isResult
      exact ⟨isResult, binds.grow grows⟩
  termination_by structural stmt

theorem evalBlock_finds (site : Site) (index : Nat) (before : Value) (stmts : List Stmt)
    {scope : List String} {heap : Heap} (isBound : Stmt.listBound scope stmts = true)
    (bound : heap.Bound) (binds : heap.Binds env scope) (isBefore : before.Bound heap) :
    Finds heap (fun after value => value.Bound after)
      (evalBlock call env site index before stmts heap) := by
  match stmts with
  | [] => exact .pure bound isBefore
  | stmt :: stmts =>
      obtain ⟨stmtBound, stmtsBound⟩ := Bool.and_eq_true_iff.mp isBound
      rw [evalBlock]
      apply Finds.bind (evalStmt_finds (site.child index) stmt stmtBound bound binds)
      rintro value after grows bound ⟨isValue, binds⟩
      exact evalBlock_finds site (index + 1) value stmts stmtsBound bound binds isValue
  termination_by structural stmts

theorem evalArguments_finds (site : Site) (index : Nat) (exprs : List Expr) {scope : List String}
    {heap : Heap} (isBound : Expr.listBound scope exprs = true) (bound : heap.Bound)
    (binds : heap.Binds env scope) :
    Finds heap (fun after values => ∀ value ∈ values, Value.Bound after value)
      (evalArguments call env site index exprs heap) := by
  match exprs with
  | [] => exact .pure bound (List.forall_mem_nil _)
  | expr :: exprs =>
      obtain ⟨exprBound, exprsBound⟩ := Bool.and_eq_true_iff.mp isBound
      rw [evalArguments]
      apply Finds.bind (evalExpr_finds (site.child index) expr exprBound bound binds)
      intro value between grows bound isValue
      apply Finds.bind
        (evalArguments_finds site (index + 1) exprs exprsBound bound (binds.grow grows))
      intro values after further bound areValues
      exact .pure bound (List.forall_mem_cons.mpr ⟨Value.Bound.grow isValue further, areValues⟩)
  termination_by structural exprs

end

end

/-- A call finds the names of the body, whatever the depth. -/
theorem apply_finds (depth : Nat) (closure : Closure) (arguments : List Value) (heap : Heap)
    (bound : heap.Bound) (isBound : closure.Bound heap)
    (areBound : ∀ argument ∈ arguments, Value.Bound heap argument) :
    Finds heap (fun after value => value.Bound after) (apply depth closure arguments heap) := by
  induction depth generalizing closure arguments heap with
  | zero => exact .tooDeep
  | succ depth ih =>
      by_cases fits : closure.parameters.length = arguments.length
      · obtain ⟨scope, bodyBound, binds⟩ := isBound
        have grows := Heap.Grows.alloc heap (some closure.home)
        have argumentsBound : ∀ binding ∈ closure.parameters.zip arguments,
            binding.2.Bound (heap.alloc (some closure.home)).2 :=
          fun binding isBinding => (areBound _ (List.of_mem_zip isBinding).2).grow grows
        obtain ⟨entered, growsOn⟩ := (bound.alloc (some closure.home)).defineAll argumentsBound
        have body := evalBlock_finds ih (closure.site.child 0) 0 .null closure.body bodyBound
          entered (binds.alloc.defineAll fits) trivial
        rw [apply_of_fits depth fits]
        exact body.unwrap.earlier (grows.trans growsOn)
      · rw [apply_of_wrongCount depth fits]
        exact .failed nofun

end Ideal

namespace Program

/-- A program whose text makes sure of its names never fails for want of one, whatever the
depth that its calls are granted. -/
theorem outcome_ne_unknownIdentifier {program : Program}
    (isBound : Stmt.listBound [] program = true) (depth base : Nat) (name : String) :
    ((program.eval depth Session.start.global base).outcome Session.start.store).1 ≠
      .failed (.unknownIdentifier name) := by
  let heap := (Ideal.Heap.empty.alloc none).2
  have noFrames : Ideal.Heap.empty.Bound := by
    intro id frame name value isFrame
    cases (Array.getElem?_empty (i := id.index)).symm.trans isFrame
  have matched : Session.start.store.Matches heap :=
    Store.Matches.alloc ⟨rfl, fun isContents => by cases isContents⟩ none
  have binds : heap.Binds Session.start.global [] := ⟨rfl, List.forall_mem_nil _⟩
  have finds : Ideal.Finds heap (fun after value => value.Bound after)
      (Ideal.evalBlock (Ideal.apply depth) Session.start.global [] base .null program heap) :=
    Ideal.evalBlock_finds (Ideal.apply_finds depth) [] base .null program isBound
      (noFrames.alloc none) binds trivial
  have follows := Program.run_follows depth List.mem_cons_self base program
    Session.start_built.balanced matched
  intro isUnknown
  rw [isUnknown] at follows
  rcases follows with isReleased | ⟨alike, -⟩
  · cases isReleased
  · rw [Ideal.run] at alike
    generalize Ideal.evalBlock (Ideal.apply depth) Session.start.global [] base .null program heap =
      ended at finds alike
    cases finds with
    | failed found =>
        cases alike
        exact found name rfl
    | _ => cases alike

/-- A program whose text makes sure of its names may end in many ways, but never with a name that
is not found. -/
theorem ends_without_unknownIdentifier (program : Program)
    (isBound : Stmt.listBound [] program = true) {outcome : Outcome} {after : Store}
    (ended : program.Ends Session.start.global 0 Session.start.store outcome after)
    (name : String) : outcome ≠ .failed (.unknownIdentifier name) := by
  obtain ⟨-, depth, isOutcome⟩ := ended
  have noUnknown := outcome_ne_unknownIdentifier isBound depth 0 name
  rwa [isOutcome] at noUnknown

/-- A function that calls itself, made by one call and called when that has ended. -/
theorem ends_without_unknownIdentifier_recursion :
    ∃ (program : Program) (after : Store), Stmt.listBound [] program = true ∧
      program.Ends Session.start.global 0 Session.start.store (.value (.int (-1))) after ∧
      Outcome.value (.int (-1)) ≠ .failed (.unknownIdentifier "down") := by
  let program : Program := [
    .letBind "from" (.fn ["step"] [
      .letBind "down" (.fn ["n"] [.expr (.ifElse (.infixOp .lessThan (.ident "n") (.int 1))
        [.expr (.ident "n")]
        (some [.expr (.call (.ident "down")
          [.infixOp .minus (.ident "n") (.ident "step")])]))]),
      .expr (.ident "down")]),
    .expr (.call (.call (.ident "from") [.int 2]) [.int 3])]
  have isBound : Stmt.listBound [] program = true := by decide
  have ended : program.Ends Session.start.global 0 Session.start.store (.value (.int (-1)))
      ((program.eval 3 Session.start.global 0).outcome Session.start.store).2 :=
    ⟨by simp, 3, Prod.ext (by cbv) rfl⟩
  exact ⟨program, _, isBound, ended, ends_without_unknownIdentifier program isBound ended "down"⟩

end Program

end Monkey
