/-
# How far a return goes

A return is a signal, and it takes the way that faults take: every construct that waits for a
part of itself passes it on. What stops it is the end of a call and nothing else, so a signal
that is on its way belongs to the body in which its statement stands, wherever the functions
come from that are called in between. A return that leaves a program was written outside of
every function literal, and none ever leaves a call.

A call is entered when its function and its arguments have their values. A return that is met
before that point ends the whole call expression instead, and the body is not run.
-/

import Monkey.Proofs.Eval.Calls

namespace Monkey

/-! ## Return statements -/

mutual

/-- Whether a return statement stands in an expression, those in function literals apart. -/
def Expr.returns : Expr → Bool
  | .ident _ => false
  | .int _ => false
  | .bool _ => false
  | .prefixOp _ operand => operand.returns
  | .infixOp _ left right => left.returns || right.returns
  | .ifElse condition consequence none => condition.returns || Stmt.returnsList consequence
  | .ifElse condition consequence (some alternative) =>
    condition.returns || (Stmt.returnsList consequence || Stmt.returnsList alternative)
  | .fn _ _ => false
  | .call callee arguments => callee.returns || Expr.returnsList arguments
  termination_by structural expr => expr

/-- Whether a statement is a return, or one stands in its expression. -/
def Stmt.returns : Stmt → Bool
  | .letBind _ value => value.returns
  | .ret _ => true
  | .expr value => value.returns
  termination_by structural stmt => stmt

/-- Whether there is a return statement among some statements, or inside one of them. -/
def Stmt.returnsList : List Stmt → Bool
  | [] => false
  | stmt :: stmts => stmt.returns || Stmt.returnsList stmts
  termination_by structural stmts => stmts

/-- Whether a return statement stands in one of some expressions. -/
def Expr.returnsList : List Expr → Bool
  | [] => false
  | expr :: exprs => expr.returns || Expr.returnsList exprs
  termination_by structural exprs => exprs

end

/-- What a call makes of the value of its body: a function holds the frame of the call as well. -/
def Value.returnedFrom (frame : FrameId) : Value → Value
  | .function closure => .function (closure.returnedFrom frame)
  | value => value

/-! ## Actions that no return leaves -/

namespace Eval

variable {α β : Type}

/-- The action does not end with a return that is still on its way. -/
def Contains (action : Eval α) : Prop :=
  ∀ store value after, action store ≠ .error (.returned value) after

namespace Contains

theorem pure (result : α) : Contains (pure result) := by
  rintro store value after ⟨⟩

theorem fail (fault : Fault) : Contains (fail fault : Eval α) := by
  rintro store value after ⟨⟩

theorem ofExcept (outcome : Except Fault α) : Contains (ofExcept outcome) := by
  cases outcome with
  | ok result => exact pure result
  | error fault => exact fail fault

theorem bind {first : Eval α} {second : α → Eval β} (isFirst : Contains first)
    (isSecond : ∀ result, Contains (second result)) : Contains (first >>= second) := by
  intro store value after
  cases reached : first store with
  | ok result middle =>
      rw [bind_of_ok reached]
      exact isSecond result middle value after
  | error signal middle =>
      rw [bind_of_error reached]
      rintro ⟨⟩
      exact isFirst store value after reached

theorem holding (held : Value) {inner : Eval α} (isInner : Contains inner) :
    Contains (holding held inner) := by
  intro store value after
  rw [Eval.holding]
  cases reached : inner store with
  | ok result middle => rintro ⟨⟩
  | error signal middle =>
      rintro ⟨⟩
      exact isInner store value middle reached

theorem keeping (kept : Value) {inner : Eval α} (isInner : Contains inner) :
    Contains (keeping kept inner) := by
  intro store value after
  rw [Eval.keeping]
  cases reached : inner store with
  | ok result middle => rintro ⟨⟩
  | error signal middle =>
      rintro ⟨⟩
      exact isInner store value middle reached

theorem lookup (env : FrameId) (name : String) : Contains (lookup env name) := by
  intro store value after
  rw [lookup_apply]
  cases store.resolve env name with
  | some found => rintro ⟨⟩
  | none => rintro ⟨⟩

theorem bindName (env : FrameId) (name : String) (value : Value) :
    Contains (Eval.bind env name value) := by
  rintro store other after ⟨⟩

end Contains

/-- The end of a call takes a return for the value of the body. -/
theorem inFrame_of_returned (frame : FrameId) {body : Eval Value} {store after : Store}
    {value : Value} (returned : body store = .error (.returned value) after) :
    ∃ last, inFrame frame body store = .ok (value.returnedFrom frame) last := by
  rw [Eval.inFrame, returned]
  cases value with
  | function closure => exact ⟨_, rfl⟩
  | _ => exact ⟨_, rfl⟩

/-- Whatever the body of a call does, no return leaves the frame. -/
theorem Contains.inFrame (frame : FrameId) (body : Eval Value) : Contains (inFrame frame body) := by
  intro store value after isReturned
  cases reached : body store with
  | ok result middle =>
      rw [Eval.inFrame, reached] at isReturned
      cases result <;> cases isReturned
  | error signal middle =>
      cases signal with
      | returned result =>
          obtain ⟨last, isOk⟩ := inFrame_of_returned frame reached
          cases isOk.symm.trans isReturned
      | failed fault =>
          rw [Eval.inFrame, reached] at isReturned
          cases isReturned
      | tooDeep =>
          rw [Eval.inFrame, reached] at isReturned
          cases isReturned

end Eval

open Eval

/-- No return leaves a call. -/
theorem Closure.apply_contains (depth : Nat) (closure : Closure) (arguments : List Value) :
    Contains (closure.apply depth arguments) := by
  intro store value after isReturned
  cases depth with
  | zero =>
      rw [Closure.apply_zero] at isReturned
      cases isReturned
  | succ depth =>
      by_cases fits : closure.parameters.length = arguments.length
      · cases live : store.isLive closure.home with
        | false =>
            rw [Closure.apply_of_released depth fits live] at isReturned
            cases isReturned
        | true =>
            rw [Closure.apply_of_live depth fits live] at isReturned
            exact Contains.inFrame _ _ _ _ _ isReturned
      · rw [Closure.apply_of_wrongCount depth fits] at isReturned
        cases isReturned

section

-- In a mutual block every theorem takes all the assumptions that one of them uses.
set_option linter.unusedSectionVars false

variable {call : Closure → List Value → Eval Value} {env : FrameId}
  (calls : ∀ closure arguments, Contains (call closure arguments))

include calls

mutual

theorem Expr.eval_contains (site : Site) (expr : Expr) (none : expr.returns = false) :
    Contains (expr.eval call env site) := by
  match expr with
  | .ident name => exact .lookup env name
  | .int value => exact .pure _
  | .bool value => exact .pure _
  | .fn parameters body => exact .pure _
  | .prefixOp op operand =>
      rw [Expr.eval]
      apply Contains.bind (Expr.eval_contains _ operand none)
      exact fun operand => .holding operand (.ofExcept _)
  | .infixOp op left right =>
      obtain ⟨noneLeft, noneRight⟩ := Bool.or_eq_false_iff.mp none
      rw [Expr.eval]
      apply Contains.bind (Expr.eval_contains _ left noneLeft)
      intro left
      apply Contains.holding left
      apply Contains.bind (Expr.eval_contains _ right noneRight)
      exact fun right => .holding right (.ofExcept _)
  | .ifElse condition consequence .none =>
      obtain ⟨noneFirst, noneSecond⟩ := Bool.or_eq_false_iff.mp none
      rw [Expr.eval]
      apply Contains.bind (Expr.eval_contains _ condition noneFirst)
      intro condition
      apply Contains.holding condition
      split
      · exact Stmt.evalList_contains _ _ _ consequence noneSecond
      · exact .pure _
  | .ifElse condition consequence (some alternative) =>
      obtain ⟨noneFirst, noneOthers⟩ := Bool.or_eq_false_iff.mp none
      obtain ⟨noneSecond, noneThird⟩ := Bool.or_eq_false_iff.mp noneOthers
      rw [Expr.eval]
      apply Contains.bind (Expr.eval_contains _ condition noneFirst)
      intro condition
      apply Contains.holding condition
      split
      · exact Stmt.evalList_contains _ _ _ consequence noneSecond
      · exact Stmt.evalList_contains _ _ _ alternative noneThird
  | .call callee arguments =>
      obtain ⟨noneCallee, noneArguments⟩ := Bool.or_eq_false_iff.mp none
      rw [Expr.eval]
      apply Contains.bind (Expr.eval_contains _ callee noneCallee)
      intro callee
      apply Contains.holding callee
      cases callee with
      | function closure =>
          apply Contains.bind (Expr.evalList_contains _ _ arguments noneArguments)
          exact fun values => calls closure values
      | _ => exact .fail _

theorem Stmt.eval_contains (site : Site) (stmt : Stmt) (none : stmt.returns = false) :
    Contains (stmt.eval call env site) := by
  match stmt with
  | .letBind name value =>
      rw [Stmt.eval]
      apply Contains.bind (Expr.eval_contains site value none)
      exact fun value => .bind (.bindName env name value) fun _ => .pure _
  | .ret value => cases none
  | .expr value => exact Expr.eval_contains site value none

theorem Stmt.evalList_contains (site : Site) (index : Nat) (before : Value) (stmts : List Stmt)
    (none : Stmt.returnsList stmts = false) :
    Contains (Stmt.evalList call env site index before stmts) := by
  match stmts with
  | [] => exact .pure _
  | stmt :: stmts =>
      obtain ⟨noneFirst, noneOthers⟩ := Bool.or_eq_false_iff.mp none
      rw [Stmt.evalList]
      apply Contains.bind (.holding before (Stmt.eval_contains _ stmt noneFirst))
      exact fun value => Stmt.evalList_contains site (index + 1) value stmts noneOthers

theorem Expr.evalList_contains (site : Site) (index : Nat) (exprs : List Expr)
    (none : Expr.returnsList exprs = false) :
    Contains (Expr.evalList call env site index exprs) := by
  match exprs with
  | [] => exact .pure _
  | expr :: exprs =>
      obtain ⟨noneFirst, noneOthers⟩ := Bool.or_eq_false_iff.mp none
      rw [Expr.evalList]
      apply Contains.bind (Expr.eval_contains _ expr noneFirst)
      intro value
      have isInner := Expr.evalList_contains site (index + 1) exprs noneOthers
      exact .bind (.keeping value isInner) fun _ => .pure _

end

end

/-! ## Call expressions -/

namespace Eval

variable {α β : Type}

/-- A sequence of two actions is stopped in the first or in the second. -/
theorem bind_eq_error_iff {first : Eval α} {second : α → Eval β} {store after : Store}
    {signal : Signal} :
    (first >>= second) store = .error signal after ↔
      first store = .error signal after ∨
        first.After store fun result middle => second result middle = .error signal after := by
  unfold After
  cases reached : first store with
  | ok result middle => simp [bind_of_ok reached, and_assoc]
  | error other middle => simp [bind_of_error reached]

theorem bind_eq_ok_iff {first : Eval α} {second : α → Eval β} {store after : Store} {result : β} :
    (first >>= second) store = .ok result after ↔
      first.After store fun answer middle => second answer middle = .ok result after := by
  unfold After
  cases reached : first store with
  | ok answer middle => simp [bind_of_ok reached, and_assoc]
  | error signal middle => simp [bind_of_error reached]

theorem holding_eq_error_iff {value : Value} {inner : Eval α} {store after : Store}
    {signal : Signal} :
    holding value inner store = .error signal after ↔
      ∃ last, inner store = .error signal last ∧ after = last.release value.captured := by
  rw [holding]
  cases reached : inner store with
  | ok result middle => simp
  | error other middle =>
      simp only [EStateM.Result.error.injEq]
      constructor
      · rintro ⟨rfl, rfl⟩
        exact ⟨middle, ⟨rfl, rfl⟩, rfl⟩
      · rintro ⟨_, ⟨rfl, rfl⟩, rfl⟩
        exact ⟨rfl, rfl⟩

theorem keeping_eq_ok_iff {value : Value} {inner : Eval α} {store after : Store} {result : α} :
    keeping value inner store = .ok result after ↔ inner store = .ok result after := by
  rw [keeping]
  cases inner store with
  | ok other middle => rfl
  | error signal middle => simp

theorem keeping_eq_error_iff {value : Value} {inner : Eval α} {store after : Store}
    {signal : Signal} :
    keeping value inner store = .error signal after ↔
      ∃ last, inner store = .error signal last ∧ after = last.release value.captured := by
  rw [← holding_eq_error_iff, keeping, holding]
  cases inner store with
  | ok other middle => simp
  | error signal middle => rfl

end Eval

/-- One of several expressions is stopped by a signal. Those before it have their values, which
are given up, the latest first, and those behind it are not evaluated. -/
def Expr.StoppedAmong (call : Closure → List Value → Eval Value) (env : FrameId) (site : Site)
    (index : Nat) (exprs : List Expr) (store : Store) (signal : Signal) (after : Store) : Prop :=
  ∃ earlier stopped later values middle last, exprs = earlier ++ stopped :: later ∧
    Expr.evalList call env site index earlier store = .ok values middle ∧
    stopped.eval call env (site.child (index + earlier.length)) middle = .error signal last ∧
    after = last.release (values.reverse.flatMap Value.captured)

section

variable {call : Closure → List Value → Eval Value} {env : FrameId}

/-- Several expressions are stopped in the first one or behind it. -/
theorem Expr.evalList_cons_eq_error_iff {site : Site} {index : Nat} {expr : Expr}
    {exprs : List Expr} {store after : Store} {signal : Signal} :
    Expr.evalList call env site index (expr :: exprs) store = .error signal after ↔
      expr.eval call env (site.child index) store = .error signal after ∨
        (expr.eval call env (site.child index)).After store fun value middle =>
          ∃ last, Expr.evalList call env site (index + 1) exprs middle = .error signal last ∧
            after = last.release value.captured := by
  rw [Expr.evalList, bind_eq_error_iff]
  apply or_congr_right
  apply after_congr
  intro value middle
  rw [bind_eq_error_iff, keeping_eq_error_iff]
  apply or_iff_left
  rintro ⟨_, _, -, ⟨⟩⟩

/-- Several expressions have values if the first one has and those behind it have. -/
theorem Expr.evalList_cons_eq_ok_iff {site : Site} {index : Nat} {expr : Expr}
    {exprs : List Expr} {store after : Store} {values : List Value} :
    Expr.evalList call env site index (expr :: exprs) store = .ok values after ↔
      (expr.eval call env (site.child index)).After store fun value middle =>
        ∃ others, Expr.evalList call env site (index + 1) exprs middle = .ok others after ∧
          values = value :: others := by
  rw [Expr.evalList, bind_eq_ok_iff]
  apply after_congr
  intro value middle
  rw [bind_eq_ok_iff]
  constructor
  · rintro ⟨others, last, isKept, ⟨⟩⟩
    exact ⟨others, keeping_eq_ok_iff.mp isKept, rfl⟩
  · rintro ⟨others, areOthers, rfl⟩
    exact ⟨others, after, keeping_eq_ok_iff.mpr areOthers, rfl⟩

/-- Several expressions are stopped exactly if one of them is. -/
theorem Expr.evalList_eq_error_iff {site : Site} {index : Nat} {exprs : List Expr}
    {store after : Store} {signal : Signal} :
    Expr.evalList call env site index exprs store = .error signal after ↔
      Expr.StoppedAmong call env site index exprs store signal after := by
  induction exprs generalizing index store after with
  | nil =>
      constructor
      · rintro ⟨⟩
      · rintro ⟨earlier, _, _, _, _, _, isSplit, -⟩
        cases earlier <;> cases isSplit
  | cons expr exprs ih =>
      rw [Expr.evalList_cons_eq_error_iff]
      constructor
      · rintro (isStopped | ⟨value, middle, isValue, last, areStopped, rfl⟩)
        · exact ⟨[], expr, exprs, [], store, after, rfl, rfl, isStopped, by simp [Store.release]⟩
        · obtain ⟨earlier, stopped, later, values, before, stop, rfl, areEarlier, isStopped, rfl⟩ :=
            ih.mp areStopped
          refine ⟨expr :: earlier, stopped, later, value :: values, before, stop, rfl, ?_, ?_, ?_⟩
          · exact Expr.evalList_cons_eq_ok_iff.mpr ⟨value, middle, isValue, values, areEarlier, rfl⟩
          · rwa [List.length_cons, Nat.add_comm earlier.length, ← Nat.add_assoc]
          · simp [Store.release_append]
      · rintro ⟨earlier, stopped, later, values, before, stop, isSplit, areEarlier, isStopped, rfl⟩
        cases earlier with
        | nil =>
            cases isSplit
            cases areEarlier
            exact Or.inl (by simpa [Store.release] using isStopped)
        | cons first earlier =>
            cases isSplit
            obtain ⟨value, middle, isValue, others, areOthers, rfl⟩ :=
              Expr.evalList_cons_eq_ok_iff.mp areEarlier
            refine Or.inr ⟨value, middle, isValue, stop.release (others.reverse.flatMap Value.captured),
              ih.mpr ⟨earlier, stopped, later, others, before, stop, rfl, areOthers, ?_, rfl⟩, ?_⟩
            · rwa [List.length_cons, Nat.add_comm earlier.length, ← Nat.add_assoc] at isStopped
            · simp [Store.release_append]

/-- A call expression ends with a return exactly if its callee does, or one of its arguments. -/
theorem Expr.eval_call_eq_returned_iff (calls : ∀ closure arguments, Contains (call closure arguments))
    {site : Site} {callee : Expr} {arguments : List Expr} {store after : Store} {value : Value} :
    (Expr.call callee arguments).eval call env site store = .error (.returned value) after ↔
      callee.eval call env (site.child 0) store = .error (.returned value) after ∨
        (callee.eval call env (site.child 0)).After store fun result middle =>
          ∃ closure last, result = .function closure ∧
            Expr.StoppedAmong call env (site.child 1) 0 arguments middle (.returned value) last ∧
            after = last.release closure.captured := by
  rw [Expr.eval, bind_eq_error_iff]
  apply or_congr_right
  apply after_congr
  intro result middle
  rw [holding_eq_error_iff]
  cases result with
  | function closure =>
      constructor
      · rintro ⟨last, isStopped, rfl⟩
        rcases bind_eq_error_iff.mp isStopped with areStopped | ⟨values, before, -, isReturned⟩
        · exact ⟨closure, last, rfl, Expr.evalList_eq_error_iff.mp areStopped, rfl⟩
        · exact absurd isReturned (calls closure values _ _ _)
      · rintro ⟨_, last, ⟨⟩, areStopped, rfl⟩
        exact ⟨last, bind_eq_error_iff.mpr (Or.inl (Expr.evalList_eq_error_iff.mpr areStopped)), rfl⟩
  | _ =>
      constructor
      · rintro ⟨last, ⟨⟩, -⟩
      · rintro ⟨_, _, ⟨⟩, -⟩

/-- If a call expression ends with a return, the calls made on the way are those that its callee
makes and those that its arguments make. -/
theorem Expr.makes_call_of_returned {inside : List Hold → Closure → List Value → Store → Call → Prop}
    (calls : ∀ closure arguments, Contains (call closure arguments))
    {site : Site} {callee : Expr} {arguments : List Expr} {store after : Store} {value : Value}
    (isReturned : (Expr.call callee arguments).eval call env site store =
      .error (.returned value) after) (held : List Hold) (made : Call) :
    (Expr.call callee arguments).Makes call inside env held site store made ↔
      callee.Makes call inside env held (site.child 0) store made ∨
        (callee.eval call env (site.child 0)).After store fun result middle =>
          Expr.MakesList call inside env (.value result :: held) (site.child 1) 0 arguments middle
            made := by
  rw [Expr.Makes]
  apply or_congr_right
  rcases (Expr.eval_call_eq_returned_iff calls).mp isReturned with
    isStopped | ⟨_, middle, isFunction, closure, last, rfl, areStopped, rfl⟩
  · constructor
    · rintro ⟨_, _, isOk, -⟩
      cases isStopped.symm.trans isOk
    · rintro ⟨_, _, isOk, -⟩
      cases isStopped.symm.trans isOk
  · constructor
    · rintro ⟨_, _, isOk, _, rfl, byArguments | ⟨values, before, areValues, -⟩⟩
      · exact ⟨_, _, isOk, byArguments⟩
      · cases isFunction.symm.trans isOk
        cases (Expr.evalList_eq_error_iff.mpr areStopped).symm.trans areValues
    · rintro ⟨_, _, isOk, byArguments⟩
      cases isFunction.symm.trans isOk
      exact ⟨_, _, isFunction, closure, rfl, Or.inl byArguments⟩

end

/-- A program that ends with a return contains one outside of every function literal. No return
leaves a call: one that is met in the body, however deep, gives the call its value. One that is
met in the callee or in an argument ends the call expression, and the only calls made on the way
are those of the callee and of the arguments. -/
theorem Eval.return_unwinds_to_call (depth : Nat) :
    (∀ (env : FrameId) (base : Nat) (program : Program) (store : Store) (value : Value),
      ((program.eval depth env base).outcome store).1 = .returned value →
        Stmt.returnsList program = true) ∧
    (∀ (closure : Closure) (arguments : List Value) (store : Store) (value : Value) (after : Store),
      closure.apply depth arguments store ≠ .error (.returned value) after) ∧
    (∀ (closure : Closure) (arguments : List Value) (store : Store) (value : Value) (after : Store),
      closure.parameters.length = arguments.length → store.isLive closure.home = true →
      Stmt.evalList (Closure.apply depth) (Closure.callFrame store) (closure.site.child 0) 0 .null
        closure.body (closure.entered arguments store) = .error (.returned value) after →
      ∃ last, closure.apply (depth + 1) arguments store =
        .ok (value.returnedFrom (Closure.callFrame store)) last) ∧
    ∀ (env : FrameId) (site : Site) (callee : Expr) (arguments : List Expr) (store : Store)
      (value : Value) (after : Store),
      ((Expr.call callee arguments).eval (Closure.apply depth) env site store =
          .error (.returned value) after ↔
        callee.eval (Closure.apply depth) env (site.child 0) store =
            .error (.returned value) after ∨
          (callee.eval (Closure.apply depth) env (site.child 0)).After store fun result middle =>
            ∃ closure last, result = .function closure ∧
              Expr.StoppedAmong (Closure.apply depth) env (site.child 1) 0 arguments middle
                (.returned value) last ∧
              after = last.release closure.captured) ∧
      ((Expr.call callee arguments).eval (Closure.apply depth) env site store =
          .error (.returned value) after →
        ∀ held made,
          (Expr.call callee arguments).Makes (Closure.apply depth) (Closure.Makes depth) env held
              site store made ↔
            callee.Makes (Closure.apply depth) (Closure.Makes depth) env held (site.child 0) store
                made ∨
              (callee.eval (Closure.apply depth) env (site.child 0)).After store
                fun result middle => Expr.MakesList (Closure.apply depth) (Closure.Makes depth) env
                  (.value result :: held) (site.child 1) 0 arguments middle made) := by
  have calls := Closure.apply_contains depth
  refine ⟨?_, calls, ?_, fun env site callee arguments store value after =>
    ⟨Expr.eval_call_eq_returned_iff calls, Expr.makes_call_of_returned calls⟩⟩
  · intro env base program store value isReturned
    refine Bool.of_not_eq_false fun none => ?_
    have contains : Contains (Stmt.evalList (Closure.apply depth) env [] base .null program) :=
      Stmt.evalList_contains calls [] base .null program none
    unfold Eval.outcome at isReturned
    split at isReturned
    · cases isReturned
    · next stopped => exact contains _ _ _ stopped
    · cases isReturned
    · cases isReturned
  · intro closure arguments store value after fits live stopped
    rw [Closure.apply_of_live depth fits live]
    exact inFrame_of_returned _ stopped

/-- Of the arguments of `fn(x, y) { x }(fn() { if (true) { return 1; } 2 }(), if (true) { return 7 })`
the first has the value 1, the second hands out 7, and the function behind them is not called. -/
theorem Session.start_return_in_argument :
    let body : Block := [.expr (.ifElse (.bool true) [.ret (.int 1)] none), .expr (.int 2)]
    let callee : Expr := .fn ["x", "y"] [.expr (.ident "x")]
    let arguments : List Expr := [.call (.fn [] body) [], .ifElse (.bool true) [.ret (.int 7)] none]
    let home := start.global
    (Stmt.returnsList [.expr (.call callee arguments)] = true) ∧
      (∃ last, Closure.apply 3 ⟨[], body, [0], home, []⟩ [] start.store = .ok (.int 1) last) ∧
      ∀ held made, (Expr.call callee arguments).Makes (Closure.apply 2) (Closure.Makes 2) home held
          [0] start.store made ↔
        callee.Makes (Closure.apply 2) (Closure.Makes 2) home held [0, 0] start.store made ∨
          (callee.eval (Closure.apply 2) home [0, 0]).After start.store fun result middle =>
            Expr.MakesList (Closure.apply 2) (Closure.Makes 2) home (.value result :: held) [1, 0] 0
              arguments middle made := by
  intro body callee arguments home
  obtain ⟨programs, -, bodies, expressions⟩ := Eval.return_unwinds_to_call 2
  refine ⟨?_, ?_, ?_⟩
  · exact programs home 0 _ start.store (.int 7) rfl
  · exact bodies ⟨[], body, [0], home, []⟩ [] start.store (.int 1) _ rfl rfl rfl
  · exact (expressions home [0] callee arguments start.store (.int 7) _).2 rfl

end Monkey
