/-
# What an evaluation changes

An evaluation binds names in the frame in which it takes place, and nowhere else. What it
binds there are names of its own lets, those outside of every function literal: the others
are bound in the frames of calls, and such a frame is new when its call is made. So frames
around that frame, frames in which functions were made that are called, and frames of calls
that have not returned keep their contents, whichever way the evaluation ends.

A frame that had been made already may be released meanwhile, but none comes back, so this
is a matter of the two stores, before and after, and steps compose.
-/

import Mathlib
import Monkey.Proofs.Eval.Built
import Monkey.Proofs.Store.Chains

namespace Monkey

/-! ## Names of lets -/

mutual

/-- The names that the lets in an expression bind, those in function literals apart. -/
def Expr.letNames : Expr → List String
  | .ident _ => []
  | .int _ => []
  | .bool _ => []
  | .prefixOp _ operand => operand.letNames
  | .infixOp _ left right => left.letNames ++ right.letNames
  | .ifElse condition consequence none => condition.letNames ++ Stmt.letNamesList consequence
  | .ifElse condition consequence (some alternative) =>
    condition.letNames ++ Stmt.letNamesList consequence ++ Stmt.letNamesList alternative
  | .fn _ _ => []
  | .call callee arguments => callee.letNames ++ Expr.letNamesList arguments
  termination_by structural expr => expr

/-- The names that a statement binds, directly or in the lets of its expression. -/
def Stmt.letNames : Stmt → List String
  | .letBind name value => name :: value.letNames
  | .ret value => value.letNames
  | .expr value => value.letNames
  termination_by structural stmt => stmt

/-- The names that statements bind. -/
def Stmt.letNamesList : List Stmt → List String
  | [] => []
  | stmt :: stmts => stmt.letNames ++ Stmt.letNamesList stmts
  termination_by structural stmts => stmts

/-- The names that the lets in some expressions bind. -/
def Expr.letNamesList : List Expr → List String
  | [] => []
  | expr :: exprs => expr.letNames ++ Expr.letNamesList exprs
  termination_by structural exprs => exprs

end

/-! ## Stores that differ in one frame -/

/-- Of the frames that had been made already, those that are left have their contents, except
that in one frame some names may have been bound. -/
structure Store.Confined (env : FrameId) (names : List String) (before after : Store) : Prop
    extends before.EvolvesTo after where
  others : ∀ {id contents}, id.index < before.cells.size → id ≠ env →
    after.contents? id = some contents → before.contents? id = some contents
  own : ∀ {earlier later}, before.contents? env = some earlier → after.contents? env = some later →
    ∀ name ∉ names, later.bindings.find? name = earlier.bindings.find? name

namespace Store.Confined

variable {env : FrameId} {names : List String} {before middle after store : Store}

/-- Nothing has changed if the frames that are left have their contents. -/
theorem ofUnchanged (evolves : before.EvolvesTo after)
    (unchanged : ∀ {id contents}, id.index < before.cells.size →
      after.contents? id = some contents → before.contents? id = some contents) :
    before.Confined env names after where
  toEvolvesTo := evolves
  others older _ isContents := unchanged older isContents
  own isEarlier isLater name _ := by
    have same := unchanged (index_lt_of_isLive (isLive_of_contents? isEarlier)) isLater
    cases isEarlier.symm.trans same
    rfl

theorem refl (store : Store) : store.Confined env names store :=
  .ofUnchanged (.refl store) fun _ isContents => isContents

theorem trans (first : before.Confined env names middle) (second : middle.Confined env names after) :
    before.Confined env names after where
  toEvolvesTo := first.toEvolvesTo.trans second.toEvolvesTo
  others older different isContents :=
    first.others older different
      (second.others (Nat.lt_of_lt_of_le older first.size) different isContents)
  own isEarlier isLater name free := by
    have older := index_lt_of_isLive (isLive_of_contents? isEarlier)
    obtain ⟨between, isBetween, -⟩ :=
      second.outer (Nat.lt_of_lt_of_le older first.size) isLater
    rw [second.own isBetween isLater name free, first.own isEarlier isBetween name free]

/-- A frame that is made on the way is not one of those that had been made already. -/
theorem ofFresh {fresh : FrameId} (confined : before.Confined fresh names after)
    (isFresh : before.cells.size ≤ fresh.index) {others : List String} :
    before.Confined env others after := by
  refine .ofUnchanged confined.toEvolvesTo fun older isContents => ?_
  refine confined.others older ?_ isContents
  rintro rfl
  exact absurd older (Nat.not_lt.mpr isFresh)

theorem retain (store : Store) (ids : List FrameId) :
    store.Confined env names (store.retain ids) := by
  refine .ofUnchanged (.retain store ids) fun _ isContents => ?_
  rwa [contents?_retain] at isContents

theorem release (store : Store) (ids : List FrameId) :
    store.Confined env names (store.release ids) :=
  .ofUnchanged (.release store ids) fun _ isContents => contents?_of_release isContents

theorem alloc (store : Store) (around : Option FrameId) :
    store.Confined env names (store.alloc around).2 := by
  refine .ofUnchanged (.alloc store around) fun older isContents => ?_
  rcases contents?_of_alloc isContents with ⟨rfl, -⟩ | isEarlier
  · exact absurd older (Nat.lt_irrefl _)
  · exact isEarlier

/-- Binding a name in a frame that is gone only gives the value up. -/
theorem define (store : Store) {name : String} (isName : name ∈ names) (value : Value) :
    store.Confined env names (store.define env name value) := by
  cases isFrame : store.frame? env with
  | none =>
      rw [Store.define, isFrame]
      exact release store value.captured
  | some frame =>
      have isEarlier := contents?_of_frame? isFrame
      have changed {id : FrameId} {contents : Contents}
          (isContents : (store.define env name value).contents? id = some contents) :=
        (contents?_define isEarlier name value (isLive_of_contents? isContents)).symm.trans
          isContents
      refine ⟨.define (isLive_of_frame? isFrame) name value, ?_, ?_⟩
      · intro id contents _ different isContents
        have same := changed isContents
        rwa [if_neg different] at same
      · intro earlier later isBefore isLater other free
        have same := changed isLater
        rw [if_pos rfl] at same
        cases isBefore.symm.trans isEarlier
        cases same
        exact Bindings.find?_insert_of_ne _ _ fun isOther => free (isOther ▸ isName)

theorem defineAll (store : Store) {bindings : List (String × Value)}
    (areNames : bindings.map Prod.fst ⊆ names) :
    store.Confined env names (store.defineAll env bindings) := by
  induction bindings generalizing store with
  | nil => exact refl store
  | cons binding bindings ih =>
      obtain ⟨isName, areOthers⟩ := List.cons_subset.mp areNames
      exact (define store isName binding.2).trans (ih _ areOthers)

/-- A name that has not been bound stands for what it stood for, in any frame that is left. -/
theorem resolve (confined : before.Confined env names after) {held heldAfter : List FrameId}
    (accounted : before.Accounted held) (accountedAfter : after.Accounted heldAfter) {id : FrameId}
    (live : before.isLive id = true) (livesOn : after.isLive id = true) {name : String}
    (free : name ∉ names) : after.resolve id name = before.resolve id name := by
  -- The same contents at `id`, but for names that have been bound, and the same frame around it.
  have unchanged {id : FrameId} {frame : Frame} (isFrame : before.frame? id = some frame)
      (livesOn : after.isLive id = true) :
      ∃ later, after.frame? id = some later ∧ later.outer = frame.outer ∧
        later.bindings.find? name = frame.bindings.find? name := by
    obtain ⟨later, isLater⟩ := exists_frame_of_isLive livesOn
    have isContents := contents?_of_frame? isLater
    have isEarlier := contents?_of_frame? isFrame
    obtain ⟨earlier, isBefore, sameOuter⟩ :=
      confined.outer (index_lt_of_isLive (isLive_of_frame? isFrame)) isContents
    cases isBefore.symm.trans isEarlier
    refine ⟨later, isLater, sameOuter.symm, ?_⟩
    by_cases isOwn : id = env
    · subst isOwn
      exact confined.own isEarlier isContents name free
    · have same := confined.others (index_lt_of_isLive (isLive_of_frame? isFrame)) isOwn isContents
      have sameContents := Option.some.inj (same.symm.trans isEarlier)
      exact congrArg (fun contents => contents.bindings.find? name) sameContents
  fun_induction Store.resolve before id name with
  | case1 id gone => simp [isLive, gone] at live
  | case2 id frame isFrame value isBound =>
      obtain ⟨later, isLater, -, sameBinding⟩ := unchanged isFrame livesOn
      rw [Store.resolve]
      simp only [isLater, sameBinding, isBound]
  | case3 id frame isFrame unbound outermost =>
      obtain ⟨later, isLater, sameOuter, sameBinding⟩ := unchanged isFrame livesOn
      rw [Store.resolve]
      simp only [isLater, sameBinding, unbound, sameOuter, outermost]
  | case4 id frame isFrame unbound outer isOuter older ih =>
      obtain ⟨later, isLater, sameOuter, sameBinding⟩ := unchanged isFrame livesOn
      have found := ih
        (accounted.isLive_of_inside ⟨_, contents?_of_frame? isFrame, isOuter⟩)
        (accountedAfter.isLive_of_inside
          ⟨_, contents?_of_frame? isLater, sameOuter.trans isOuter⟩)
      rw [Store.resolve]
      simp only [isLater, sameBinding, unbound, sameOuter, isOuter, if_pos older, found]
  | case5 id frame isFrame unbound outer isOuter younger =>
      obtain ⟨later, isLater, sameOuter, sameBinding⟩ := unchanged isFrame livesOn
      rw [Store.resolve]
      simp only [isLater, sameBinding, unbound, sameOuter, isOuter, if_neg younger]

end Store.Confined

/-! ## Evaluations -/

namespace Eval

variable {α β : Type} {env : FrameId} {names : List String}

/-- The store that an action leaves behind, however it ends. -/
def storeAfter (action : Eval α) (store : Store) : Store :=
  match action store with
  | .ok _ after => after
  | .error _ after => after

/-- The action binds at most these names, and only in this frame. -/
def Confines (env : FrameId) (names : List String) (action : Eval α) : Prop :=
  ∀ store : Store, store.Confined env names (action.storeAfter store)

namespace Confines

theorem pure (result : α) : Confines env names (pure result) := fun store => .refl store

theorem throw (signal : Signal) : Confines env names (throw signal : Eval α) :=
  fun store => .refl store

theorem bind {first : Eval α} {second : α → Eval β} (isFirst : Confines env names first)
    (isSecond : ∀ result, Confines env names (second result)) :
    Confines env names (first >>= second) := by
  intro store
  have confined := isFirst store
  rw [storeAfter] at confined ⊢
  cases reached : first store with
  | ok result middle =>
      rw [reached] at confined
      rw [bind_of_ok reached]
      exact confined.trans (isSecond result middle)
  | error signal after =>
      rw [reached] at confined
      rw [bind_of_error reached]
      exact confined

theorem holding (value : Value) {inner : Eval α} (isInner : Confines env names inner) :
    Confines env names (holding value inner) := by
  intro store
  have confined := isInner store
  rw [storeAfter] at confined ⊢
  rw [Eval.holding]
  cases reached : inner store with
  | ok result after =>
      rw [reached] at confined
      exact confined.trans (.release after value.captured)
  | error signal after =>
      rw [reached] at confined
      exact confined.trans (.release after value.captured)

theorem keeping (value : Value) {inner : Eval α} (isInner : Confines env names inner) :
    Confines env names (keeping value inner) := by
  intro store
  have confined := isInner store
  rw [storeAfter] at confined ⊢
  rw [Eval.keeping]
  cases reached : inner store with
  | ok result after =>
      rw [reached] at confined
      exact confined
  | error signal after =>
      rw [reached] at confined
      exact confined.trans (.release after value.captured)

theorem ofExcept (outcome : Except Fault α) : Confines env names (ofExcept outcome) := by
  cases outcome with
  | ok result => exact pure result
  | error fault => exact throw (.failed fault)

theorem lookup (scope : FrameId) (name : String) : Confines env names (lookup scope name) := by
  intro store
  rw [storeAfter, lookup_apply]
  cases store.resolve scope name with
  | some value => exact .retain store value.captured
  | none => exact .refl store

theorem bindName {name : String} (isName : name ∈ names) (value : Value) :
    Confines env names (Eval.bind env name value) := by
  intro store
  exact (Store.Confined.retain store value.captured).trans (.define _ isName value)

theorem inFrame (frame : FrameId) {body : Eval Value} (isBody : Confines env names body) :
    Confines env names (inFrame frame body) := by
  have leaving (store : Store) (value : Value) {after : Store}
      (confined : store.Confined env names after) :
      store.Confined env names (storeAfter (fun _ => inFrame.leave frame value after) store) := by
    cases value with
    | function closure => exact confined
    | _ => exact confined.trans (.release after [frame])
  intro store
  have confined := isBody store
  rw [storeAfter] at confined ⊢
  rw [Eval.inFrame]
  cases reached : body store with
  | ok value after =>
      rw [reached] at confined
      exact leaving store value confined
  | error signal after =>
      rw [reached] at confined
      cases signal with
      | returned value => exact leaving store value confined
      | failed fault => exact confined.trans (.release after [frame])
      | tooDeep => exact confined.trans (.release after [frame])

end Confines

end Eval

open Eval

section

-- In a mutual block every theorem takes all the assumptions that one of them uses.
set_option linter.unusedSectionVars false

variable {call : Closure → List Value → Eval Value} {env : FrameId} {names : List String}
  (calls : ∀ closure arguments, Confines env names (call closure arguments))

include calls

mutual

theorem Expr.eval_confines (site : Site) (expr : Expr) (areNames : expr.letNames ⊆ names) :
    Confines env names (expr.eval call env site) := by
  match expr with
  | .ident name => exact .lookup env name
  | .int value => exact .pure _
  | .bool value => exact .pure _
  | .fn parameters body => exact .pure _
  | .prefixOp op operand =>
      rw [Expr.eval]
      apply Confines.bind (Expr.eval_confines _ operand areNames)
      exact fun operand => .holding operand (.ofExcept _)
  | .infixOp op left right =>
      obtain ⟨areLeft, areRight⟩ := List.append_subset.mp areNames
      rw [Expr.eval]
      apply Confines.bind (Expr.eval_confines _ left areLeft)
      intro left
      apply Confines.holding left
      apply Confines.bind (Expr.eval_confines _ right areRight)
      exact fun right => .holding right (.ofExcept _)
  | .ifElse condition consequence none =>
      obtain ⟨areFirst, areSecond⟩ := List.append_subset.mp areNames
      rw [Expr.eval]
      apply Confines.bind (Expr.eval_confines _ condition areFirst)
      intro condition
      apply Confines.holding condition
      split
      · exact Stmt.evalList_confines _ _ _ consequence areSecond
      · exact .pure _
  | .ifElse condition consequence (some alternative) =>
      obtain ⟨areFront, areThird⟩ := List.append_subset.mp areNames
      obtain ⟨areFirst, areSecond⟩ := List.append_subset.mp areFront
      rw [Expr.eval]
      apply Confines.bind (Expr.eval_confines _ condition areFirst)
      intro condition
      apply Confines.holding condition
      split
      · exact Stmt.evalList_confines _ _ _ consequence areSecond
      · exact Stmt.evalList_confines _ _ _ alternative areThird
  | .call callee arguments =>
      obtain ⟨areCallee, areArguments⟩ := List.append_subset.mp areNames
      rw [Expr.eval]
      apply Confines.bind (Expr.eval_confines _ callee areCallee)
      intro callee
      apply Confines.holding callee
      cases callee with
      | function closure =>
          apply Confines.bind (Expr.evalList_confines _ _ arguments areArguments)
          exact fun values => calls closure values
      | _ => exact .throw _

theorem Stmt.eval_confines (site : Site) (stmt : Stmt) (areNames : stmt.letNames ⊆ names) :
    Confines env names (stmt.eval call env site) := by
  match stmt with
  | .letBind name value =>
      obtain ⟨isName, areOthers⟩ := List.cons_subset.mp areNames
      rw [Stmt.eval]
      apply Confines.bind (Expr.eval_confines site value areOthers)
      exact fun value => .bind (.bindName isName value) fun _ => .pure _
  | .ret value =>
      rw [Stmt.eval]
      exact .bind (Expr.eval_confines site value areNames) fun _ => .throw _
  | .expr value => exact Expr.eval_confines site value areNames

theorem Stmt.evalList_confines (site : Site) (index : Nat) (before : Value) (stmts : List Stmt)
    (areNames : Stmt.letNamesList stmts ⊆ names) :
    Confines env names (Stmt.evalList call env site index before stmts) := by
  match stmts with
  | [] => exact .pure _
  | stmt :: stmts =>
      obtain ⟨areFirst, areOthers⟩ := List.append_subset.mp areNames
      rw [Stmt.evalList]
      apply Confines.bind (.holding before (Stmt.eval_confines _ stmt areFirst))
      exact fun value => Stmt.evalList_confines site (index + 1) value stmts areOthers

theorem Expr.evalList_confines (site : Site) (index : Nat) (exprs : List Expr)
    (areNames : Expr.letNamesList exprs ⊆ names) :
    Confines env names (Expr.evalList call env site index exprs) := by
  match exprs with
  | [] => exact .pure _
  | expr :: exprs =>
      obtain ⟨areFirst, areOthers⟩ := List.append_subset.mp areNames
      rw [Expr.evalList]
      apply Confines.bind (Expr.eval_confines _ expr areFirst)
      intro value
      have isInner := Expr.evalList_confines site (index + 1) exprs areOthers
      exact .bind (.keeping value isInner) fun _ => .pure _

end

end

/-- A call changes nothing in frames that had been made already. -/
theorem Closure.apply_confines (depth : Nat) (closure : Closure) (arguments : List Value)
    (env : FrameId) (names : List String) :
    Confines env names (closure.apply depth arguments) := by
  induction depth generalizing closure arguments env names with
  | zero => exact fun store => .release store _
  | succ depth ih =>
      intro store
      rw [storeAfter]
      by_cases fits : closure.parameters.length = arguments.length
      · cases live : store.isLive closure.home with
        | false =>
            rw [Closure.apply_of_released depth fits live]
            exact .release store _
        | true =>
            let inside := closure.parameters ++ Stmt.letNamesList closure.body
            have parameters : (closure.parameters.zip arguments).map Prod.fst ⊆ inside := by
              rw [List.map_fst_zip (Nat.le_of_eq fits)]
              exact List.subset_append_left _ _
            have entered : store.Confined (callFrame store) inside (closure.entered arguments store) :=
              (Store.Confined.alloc store _).trans (.defineAll _ parameters)
            have body := Stmt.evalList_confines
              (fun closure arguments => ih closure arguments (callFrame store) inside)
              (closure.site.child 0) 0 .null closure.body (List.subset_append_right _ _)
            have ended := entered.trans (body.inFrame (callFrame store) _)
            rw [storeAfter, ← Closure.apply_of_live depth fits live] at ended
            exact ended.ofFresh (Nat.le_refl _)
      · rw [Closure.apply_of_wrongCount depth fits]
        exact .release store _

/-- A program binds names of its own lets in the frame in which it is run, and changes no other
frame that had been made already; so do a statement and an expression. A let whose value is not
reached binds nothing itself, and its name stands for what it stood for. -/
theorem Eval.confined_to_own_frame (depth : Nat) (env : FrameId) (store : Store) :
    (∀ (program : Program) (base : Nat),
      store.Confined env (Stmt.letNamesList program)
        ((program.eval depth env base).storeAfter store)) ∧
    (∀ (stmt : Stmt) (site : Site),
      store.Confined env stmt.letNames
        ((stmt.eval (Closure.apply depth) env site).storeAfter store)) ∧
    (∀ (expr : Expr) (site : Site),
      store.Confined env expr.letNames
        ((expr.eval (Closure.apply depth) env site).storeAfter store)) ∧
    ∀ (name : String) (value : Expr) (site : Site) (signal : Signal) (after : Store),
      (Stmt.letBind name value).eval (Closure.apply depth) env site store = .error signal after →
      store.Confined env value.letNames after ∧
        ∀ held, store.Balanced held → .scope env ∈ held → name ∉ value.letNames →
          after.resolve env name = store.resolve env name := by
  have calls (names : List String) (closure : Closure) (arguments : List Value) :=
    Closure.apply_confines depth closure arguments env names
  refine ⟨fun program base => ?_, fun stmt site => ?_, fun expr site => ?_, ?_⟩
  · exact Stmt.evalList_confines (calls _) [] base .null program (List.Subset.refl _) store
  · exact Stmt.eval_confines (calls _) site stmt (List.Subset.refl _) store
  · exact Expr.eval_confines (calls _) site expr (List.Subset.refl _) store
  · intro name value site signal after stopped
    have isStopped : value.eval (Closure.apply depth) env site store = .error signal after := by
      rw [Stmt.eval] at stopped
      cases reached : value.eval (Closure.apply depth) env site store with
      | ok result middle =>
          rw [bind_of_ok reached] at stopped
          cases stopped
      | error signal middle => rwa [bind_of_error reached] at stopped
    have confined := Expr.eval_confines (calls _) site value (List.Subset.refl _) store
    rw [storeAfter, isStopped] at confined
    refine ⟨confined, fun held balanced inScope free => ?_⟩
    have ended := Expr.eval_transfers Store.balanced_invariant
      (Closure.apply_transfers Store.balanced_invariant depth) inScope site value store balanced
    rw [isStopped] at ended
    have live : store.isLive env = true :=
      Store.isLive_of_mem_held balanced inScope (List.mem_singleton.mpr rfl)
    have livesOn : after.isLive env = true :=
      Store.isLive_of_mem_held ended (List.mem_append_right _ inScope) (List.mem_singleton.mpr rfl)
    exact confined.resolve balanced ended live livesOn free

/-- After `let x = 1;` the statement `let x = fn() { let x = 2; x / 0 }();` fails, and `x` stands
for the first value. -/
theorem Session.start_failed_let_resolve :
    let store := ((Program.eval 1 start.global 0 [.letBind "x" (.int 1)]).outcome start.store).2
    let failing : Eval Value := (Stmt.letBind "x" (.call (.fn []
      [.letBind "x" (.int 2), .expr (.infixOp .divide (.ident "x") (.int 0))]) [])).eval
        (Closure.apply 1) start.global [1]
    failing store = .error (.failed .divisionByZero) (failing.storeAfter store) ∧
      (failing.storeAfter store).resolve start.global "x" = some (.int 1) := by
  intro store failing
  have fails : failing store = .error (.failed .divisionByZero) (failing.storeAfter store) := by
    unfold failing store
    cbv
  have built := start_built.run List.mem_cons_self 1 0 [.letBind "x" (.int 1)]
  obtain ⟨-, -, -, stopped⟩ := Eval.confined_to_own_frame 1 start.global store
  have kept := (stopped "x" _ [1] _ _ fails).2 _ built.balanced (by simp) (by
    simp [Expr.letNames, Expr.letNamesList])
  exact ⟨fails, kept.trans (by unfold store; cbv)⟩

end Monkey
