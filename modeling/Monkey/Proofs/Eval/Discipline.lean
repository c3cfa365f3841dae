/-
# Evaluations whose calls comply

Some properties do not survive every evaluation. They last for as long as the calls that
are made keep to some condition, on their arguments or on what they return. Others depend
on the frame in which a value is in hand, so it matters in which order things are held.
The rules for such a property say what happens on top of what is held already. They call
upon the condition where a call is entered and where it hands a function over.

A property that survives each step of evaluations whose calls comply holds at every call
that such an evaluation makes, and when it ends, whichever way that is. This is shown by
induction on the tree and, for calls, on the depth that they are granted; it is the only
induction over the evaluator that such a property needs.
-/

import Monkey.Proofs.Eval.Calls

namespace Monkey

/-- An operator applied to one value never makes a function. -/
theorem PrefixOp.kind_of_apply {op : PrefixOp} {operand value : Value}
    (applied : op.apply operand = .ok value) : value.kind ≠ .function := by
  cases op <;> cases operand <;> cases applied <;> simp [Value.kind]

theorem InfixOp.kind_of_applyInt {op : InfixOp} {left right : Int64} {value : Value}
    (applied : op.applyInt left right = .ok value) : value.kind ≠ .function := by
  cases op with
  | divide =>
      rw [InfixOp.applyInt] at applied
      split at applied
      · cases applied
      · cases applied
        simp [Value.kind]
  | _ =>
      cases applied
      simp [Value.kind]

/-- An operator applied to two values never makes a function. -/
theorem InfixOp.kind_of_apply {op : InfixOp} {left right value : Value}
    (applied : op.apply left right = .ok value) : value.kind ≠ .function := by
  unfold InfixOp.apply at applied
  split at applied
  · exact InfixOp.kind_of_applyInt applied
  · split at applied
    · cases applied
      simp [Value.kind]
    · cases applied
      simp [Value.kind]
    · split at applied <;> cases applied

/-- The arguments of a call and its function are what was held latest when it is made. -/
def Call.IsLatest (made : Call) : Prop :=
  ∃ around, made.held = Hold.values made.arguments ++ .value (.function made.closure) :: around

namespace Eval

/-- A property of what is held, latest first, and of the store that survives each step of an
evaluation within some frame, provided that calls comply with some condition. -/
structure Discipline (within : FrameId → List Hold → Prop) (complies : Call → Prop)
    (I : List Hold → Store → Prop) : Prop where
  /-- An evaluation stays within its frame while values are in hand. -/
  inHand : ∀ {env held}, within env held → ∀ value, within env (.value value :: held)
  /-- A call runs within a frame of its own. -/
  inFrame : ∀ frame held, within frame (.scope frame :: held)
  /-- The order of values in hand does not matter. -/
  arrange : ∀ {held store first second}, I (Hold.values first ++ held) store →
    first.Perm second → I (Hold.values second ++ held) store
  /-- A value that is no function needs no hold. -/
  plain : ∀ {held store value}, I held store → value.kind ≠ .function →
    I (.value value :: held) store
  /-- A literal makes a function whose home is the frame around it. -/
  literal : ∀ {held store env}, I held store → within env held →
    ∀ parameters body site,
      I (.value (.function ⟨parameters, body, site, env, []⟩) :: held) store
  /-- A value that is found or that is already in hand can be held once more. -/
  found : ∀ {held store env name value}, I held store → within env held →
    store.resolve env name = some value → I (.value value :: held) (store.retain value.captured)
  copy : ∀ {held store value}, I (.value value :: held) store →
    I (.value value :: .value value :: held) (store.retain value.captured)
  /-- A hold can be given up. -/
  drop : ∀ {held store hold}, I (hold :: held) store → I held (store.release hold.frames)
  /-- A value in hand can be bound in the frame. -/
  define : ∀ {held store env value}, I (.value value :: held) store → within env held →
    ∀ name, I held (store.define env name value)
  /-- A call that complies enters a new frame inside the home of its function, and its arguments
  are in hand there. -/
  enter : ∀ {held store closure arguments},
    complies ⟨Hold.values arguments ++ .value (.function closure) :: held, store, closure,
      arguments⟩ →
    I (Hold.values arguments ++ .value (.function closure) :: held) store →
    closure.parameters.length = arguments.length → store.isLive closure.home = true →
    I (Hold.values arguments ++
        .scope (Closure.callFrame store) :: .value (.function closure) :: held)
      (store.alloc (some closure.home)).2
  /-- A function that a complying call returns takes over the hold on the frame of the call. -/
  handOver : ∀ {made depth held closure frame after}, complies made →
    made.closure.apply depth made.arguments made.store =
      .ok (.function (closure.returnedFrom frame)) after →
    I (.value (.function closure) :: .scope frame :: held) after →
    I (.value (.function (closure.returnedFrom frame)) :: held) after

section

variable {within : FrameId → List Hold → Prop} {complies : Call → Prop}
  {I : List Hold → Store → Prop} {held : List Hold} {α β : Type}

/-- The action turns the values that it is given into those that it gains. If all its calls
comply, it keeps the property while it does so, and the property holds at every call. -/
def Keeps (complies : Call → Prop) (I : List Hold → Store → Prop) (held : List Hold)
    (given : List Value) (action : Eval α) (makes : Store → Call → Prop)
    (gained : α → List Value) : Prop :=
  ∀ store, I (Hold.values given ++ held) store → (∀ made, makes store made → complies made) →
    Leaves I held (fun result => Hold.values (gained result)) (action store) ∧
      ∀ made, makes store made → made.IsLatest ∧ I made.held made.store

namespace Keeps

variable {given : List Value} {makes : Store → Call → Prop}

/-- An action that makes no calls. -/
theorem quiet {action : Eval α} {gained : α → List Value}
    (transfers : Transfers I held (Hold.values given) action
      fun result => Hold.values (gained result)) :
    Keeps complies I held given action (fun _ _ => False) gained :=
  fun store kept _ => ⟨transfers store kept, fun _ => False.elim⟩

theorem congr {action : Eval α} {gained : α → List Value} {other : Store → Call → Prop}
    (keeps : Keeps complies I held given action makes gained)
    (same : ∀ store made, other store made ↔ makes store made) :
    Keeps complies I held given action other gained := by
  obtain rfl : other = makes := funext fun store => funext fun made => propext (same store made)
  exact keeps

/-- The calls of two actions are those of the first and, if it has a result, those of the
second. -/
theorem bind {first : Eval α} {middle : α → List Value} {second : α → Eval β}
    {makesSecond : α → Store → Call → Prop} {gained : β → List Value}
    (isFirst : Keeps complies I held given first makes middle)
    (isSecond : ∀ result,
      Keeps complies I held (middle result) (second result) (makesSecond result) gained) :
    Keeps complies I held given (first >>= second)
      (fun store made => makes store made ∨
        first.After store fun result after => makesSecond result after made) gained := by
  intro store kept comply
  obtain ⟨ended, atFirst⟩ := isFirst store kept fun made byFirst => comply made (Or.inl byFirst)
  cases reached : first store with
  | ok result after =>
      rw [reached] at ended
      obtain ⟨ended, atSecond⟩ := isSecond result after ended fun made bySecond =>
        comply made (Or.inr ⟨result, after, reached, bySecond⟩)
      rw [bind_of_ok reached]
      refine ⟨ended, ?_⟩
      rintro made (byFirst | ⟨other, last, isOther, bySecond⟩)
      · exact atFirst made byFirst
      · cases reached.symm.trans isOther
        exact atSecond made bySecond
  | error signal after =>
      rw [reached] at ended
      rw [bind_of_error reached]
      refine ⟨ended, ?_⟩
      rintro made (byFirst | ⟨other, last, isOther, bySecond⟩)
      · exact atFirst made byFirst
      · cases reached.symm.trans isOther

/-- The second of two actions makes no calls. -/
theorem bindQuiet {first : Eval α} {middle : α → List Value} {second : α → Eval β}
    {gained : β → List Value} (isFirst : Keeps complies I held given first makes middle)
    (isSecond : ∀ result, Transfers I held (Hold.values (middle result)) (second result)
      fun result => Hold.values (gained result)) :
    Keeps complies I held given (first >>= second) makes gained := by
  refine (isFirst.bind fun result => quiet (isSecond result)).congr fun store made => ?_
  refine (or_iff_left ?_).symm
  rintro ⟨_, _, _, none⟩
  exact none

end Keeps

namespace Discipline

variable (discipline : Discipline within complies I) {given : List Value}
  {makes : Store → Call → Prop}

include discipline

/-! ## Values in hand -/

/-- The value furthest back among those in hand can be taken for the latest. -/
theorem arrangeBehind (gained : List Value) (value : Value) {store : Store}
    (kept : I (Hold.values gained ++ .value value :: held) store) :
    I (Hold.values (value :: gained) ++ held) store := by
  have behind : Hold.values gained ++ .value value :: held =
      Hold.values (gained ++ [value]) ++ held := by simp [Hold.values]
  rw [behind] at kept
  exact discipline.arrange kept (List.perm_append_singleton value gained)

/-- So it can be given up, whatever came to be in hand since. -/
theorem dropBehind (gained : List Value) (value : Value) {store : Store}
    (kept : I (Hold.values gained ++ .value value :: held) store) :
    I (Hold.values gained ++ held) (store.release value.captured) :=
  discipline.drop (discipline.arrangeBehind gained value kept)

theorem dropBehindSignal (signal : Signal) (value : Value) {store : Store}
    (kept : I (signal.holds ++ .value value :: held) store) :
    I (signal.holds ++ held) (store.release value.captured) := by
  cases signal with
  | returned result => exact discipline.dropBehind [result] value kept
  | failed fault => exact discipline.dropBehind [] value kept
  | tooDeep => exact discipline.dropBehind [] value kept

theorem holding {value : Value} {inner : Eval α} {gained : α → List Value}
    (isInner : Keeps complies I (.value value :: held) [] inner makes gained) :
    Keeps complies I held [value] (Eval.holding value inner) makes gained := by
  intro store kept comply
  obtain ⟨ended, atCalls⟩ := isInner store kept comply
  refine ⟨?_, atCalls⟩
  unfold Eval.holding
  generalize inner store = reached at ended ⊢
  cases reached with
  | ok result after => exact discipline.dropBehind (gained result) value ended
  | error signal after => exact discipline.dropBehindSignal signal value ended

theorem keeping {value : Value} {inner : Eval α} {gained : α → List Value}
    (isInner : Keeps complies I (.value value :: held) [] inner makes gained) :
    Keeps complies I held [value] (Eval.keeping value inner) makes
      (fun result => value :: gained result) := by
  intro store kept comply
  obtain ⟨ended, atCalls⟩ := isInner store kept comply
  refine ⟨?_, atCalls⟩
  unfold Eval.keeping
  generalize inner store = reached at ended ⊢
  cases reached with
  | ok result after => exact discipline.arrangeBehind (gained result) value ended
  | error signal after => exact discipline.dropBehindSignal signal value ended

/-- Blocks start with null in hand, which takes no hold. -/
theorem startNull {action : Eval α} {gained : α → List Value}
    (isAction : Keeps complies I held [.null] action makes gained) :
    Keeps complies I held [] action makes gained :=
  fun store kept => isAction store (discipline.plain kept (by simp [Value.kind]))

theorem lookup {env : FrameId} (inside : within env held) (name : String) :
    Transfers I held [] (Eval.lookup env name) (fun value => [.value value]) := by
  intro store kept
  rw [lookup_apply]
  cases isFound : store.resolve env name with
  | none => exact kept
  | some value => exact discipline.found kept inside isFound

theorem bindName {env : FrameId} (inside : within env held) (name : String) (value : Value) :
    Transfers I held [.value value] (Eval.bind env name value) (fun _ => [.value value]) :=
  fun _ kept => discipline.define (discipline.copy kept) (discipline.inHand inside value) name

theorem releaseAll (values : List Value) :
    Transfers I held (Hold.values values) (Eval.release values) (fun _ => []) := by
  intro store kept
  show I held (store.release (values.flatMap Value.captured))
  induction values generalizing store with
  | nil => rw [List.flatMap_nil, Store.release]; exact kept
  | cons first others ih =>
      rw [List.flatMap_cons, Store.release_append]
      exact ih _ (discipline.drop kept)

/-- Where an operand was there is the result of the operation, which is no function. -/
theorem operation {operand : Value} {outcome : Except Fault Value}
    (plain : ∀ value, outcome = .ok value → value.kind ≠ .function) :
    Transfers I held [.value operand] (Eval.holding operand (Eval.ofExcept outcome))
      (fun value => [.value value]) := by
  intro store kept
  cases outcome with
  | ok value => exact discipline.plain (discipline.drop kept) (plain value rfl)
  | error fault => exact discipline.drop kept

/-! ## Calls -/

/-- The frame is given up, unless it is handed over with a function. -/
theorem inFrame_leaves {frame : FrameId} {body : Eval Value} {store : Store}
    (ended : Leaves I (.scope frame :: held) (fun value => [.value value]) (body store))
    (handOver : ∀ closure after,
      Eval.inFrame frame body store = .ok (.function (closure.returnedFrom frame)) after →
      I (.value (.function closure) :: .scope frame :: held) after →
      I (.value (.function (closure.returnedFrom frame)) :: held) after) :
    Leaves I held (fun value => [.value value]) (Eval.inFrame frame body store) := by
  have leaving (value : Value) (after : Store)
      (isLeft : Eval.inFrame frame body store = Eval.inFrame.leave frame value after)
      (kept : I (.value value :: .scope frame :: held) after) :
      Leaves I held (fun value => [.value value]) (Eval.inFrame frame body store) := by
    rw [isLeft]
    cases value with
    | function closure => exact handOver closure after isLeft kept
    | _ =>
        have without := discipline.drop kept
        simp only [Hold.frames, Value.captured, Store.release] at without
        exact discipline.plain (discipline.drop without) (by simp [Value.kind])
  cases reached : body store with
  | ok value after =>
      rw [reached] at ended
      exact leaving value after (by rw [Eval.inFrame, reached]) ended
  | error signal after =>
      rw [reached] at ended
      cases signal with
      | returned value => exact leaving value after (by rw [Eval.inFrame, reached]) ended
      | failed fault =>
          rw [Eval.inFrame, reached]
          exact discipline.drop ended
      | tooDeep =>
          rw [Eval.inFrame, reached]
          exact discipline.drop ended

theorem inHands {env : FrameId} (inside : within env held) (values : List Value) :
    within env (Hold.values values ++ held) := by
  induction values with
  | nil => exact inside
  | cons value values ih => exact discipline.inHand ih value

/-- Binding parameters uses up the arguments in hand. -/
theorem defineAll {env : FrameId} (inside : within env held)
    {bindings : List (String × Value)} {store : Store}
    (kept : I (Hold.values (bindings.map Prod.snd) ++ held) store) :
    I held (store.defineAll env bindings) := by
  induction bindings generalizing store with
  | nil => exact kept
  | cons binding bindings ih =>
      exact ih (discipline.define kept (discipline.inHands inside _) binding.1)

/-- A call that passes its checks enters a frame of its own, in which its arguments are. -/
theorem enterCall {closure : Closure} {arguments : List Value} {store : Store}
    (comply : complies ⟨Hold.values arguments ++ .value (.function closure) :: held, store, closure,
      arguments⟩)
    (kept : I (Hold.values arguments ++ .value (.function closure) :: held) store)
    (fits : closure.parameters.length = arguments.length)
    (live : store.isLive closure.home = true) :
    I (.scope (Closure.callFrame store) :: .value (.function closure) :: held)
      (closure.entered arguments store) := by
  apply discipline.defineAll (discipline.inFrame _ _)
  rw [List.map_snd_zip (Nat.le_of_eq fits.symm)]
  exact discipline.enter comply kept fits live

end Discipline

end

end Eval

open Eval

section

-- In a mutual block every theorem takes all the assumptions that one of them uses.
set_option linter.unusedSectionVars false

variable {within : FrameId → List Hold → Prop} {complies : Call → Prop}
  {I : List Hold → Store → Prop} (discipline : Discipline within complies I)
  {call : Closure → List Value → Eval Value}
  {inside : List Hold → Closure → List Value → Store → Call → Prop}
  (calls : ∀ held closure arguments,
    Keeps complies I (.value (.function closure) :: held) arguments (call closure arguments)
      (inside (.value (.function closure) :: held) closure arguments) fun value => [value])
  {env : FrameId}

include discipline calls

mutual

theorem Expr.eval_keeps {held : List Hold} (inScope : within env held) (site : Site)
    (expr : Expr) :
    Keeps complies I held [] (expr.eval call env site) (expr.Makes call inside env held site)
      fun value => [value] := by
  match expr with
  | .ident name => exact .quiet (discipline.lookup inScope name)
  | .int value => exact .quiet fun _ kept => discipline.plain kept (by simp [Value.kind])
  | .bool value => exact .quiet fun _ kept => discipline.plain kept (by simp [Value.kind])
  | .fn parameters body =>
      exact .quiet fun _ kept => discipline.literal kept inScope parameters body site
  | .prefixOp op operand =>
      rw [Expr.eval]
      apply Keeps.bindQuiet (Expr.eval_keeps inScope (site.child 0) operand)
      intro operand
      exact discipline.operation fun _ => PrefixOp.kind_of_apply
  | .infixOp op left right =>
      rw [Expr.eval]
      apply Keeps.bind (Expr.eval_keeps inScope (site.child 0) left)
      intro left
      apply discipline.holding
      apply Keeps.bindQuiet (Expr.eval_keeps (discipline.inHand inScope left) (site.child 1) right)
      intro right
      exact discipline.operation fun _ => InfixOp.kind_of_apply
  | .ifElse condition consequence none =>
      rw [Expr.eval]
      apply Keeps.bind (Expr.eval_keeps inScope (site.child 0) condition)
      intro condition
      apply discipline.holding
      apply discipline.startNull
      have inScope := discipline.inHand inScope condition
      cases condition.truthy with
      | true =>
          refine (Stmt.evalList_keeps inScope (site.child 1) 0 .null consequence).congr ?_
          simp
      | false =>
          refine (Keeps.quiet (.value Value.null fun value => [.value value])).congr ?_
          simp
  | .ifElse condition consequence (some alternative) =>
      rw [Expr.eval]
      apply Keeps.bind (Expr.eval_keeps inScope (site.child 0) condition)
      intro condition
      apply discipline.holding
      apply discipline.startNull
      have inScope := discipline.inHand inScope condition
      cases condition.truthy with
      | true => exact Stmt.evalList_keeps inScope (site.child 1) 0 .null consequence
      | false => exact Stmt.evalList_keeps inScope (site.child 2) 0 .null alternative
  | .call callee arguments =>
      rw [Expr.eval]
      apply Keeps.bind (Expr.eval_keeps inScope (site.child 0) callee)
      intro callee
      apply discipline.holding
      cases callee with
      | function closure =>
          have inScope := discipline.inHand inScope (.function closure)
          have areArguments := Expr.evalList_keeps inScope (site.child 1) 0 arguments
          refine (areArguments.bind fun values => calls held closure values).congr ?_
          simp
      | _ =>
          refine (Keeps.quiet (.fail _ _)).congr ?_
          simp

theorem Stmt.eval_keeps {held : List Hold} (inScope : within env held) (site : Site)
    (stmt : Stmt) :
    Keeps complies I held [] (stmt.eval call env site) (stmt.Makes call inside env held site)
      fun value => [value] := by
  match stmt with
  | .letBind name value =>
      rw [Stmt.eval]
      apply Keeps.bindQuiet (Expr.eval_keeps inScope site value)
      intro value
      apply Transfers.bind (discipline.bindName inScope name value)
      intro _
      exact .value value fun value => [.value value]
  | .ret value =>
      rw [Stmt.eval]
      apply Keeps.bindQuiet (Expr.eval_keeps inScope site value)
      intro value
      exact .returned value _
  | .expr value => exact Expr.eval_keeps inScope site value

theorem Stmt.evalList_keeps {held : List Hold} (inScope : within env held) (site : Site)
    (index : Nat) (before : Value) (stmts : List Stmt) :
    Keeps complies I held [before] (Stmt.evalList call env site index before stmts)
      (Stmt.MakesList call inside env held site index before stmts) fun value => [value] := by
  match stmts with
  | [] => exact .quiet (.value before fun value => [.value value])
  | stmt :: stmts =>
      rw [Stmt.evalList]
      have isFirst := Stmt.eval_keeps (discipline.inHand inScope before) (site.child index) stmt
      apply Keeps.bind (discipline.holding isFirst)
      intro value
      exact Stmt.evalList_keeps inScope site (index + 1) value stmts

theorem Expr.evalList_keeps {held : List Hold} (inScope : within env held) (site : Site)
    (index : Nat) (exprs : List Expr) :
    Keeps complies I held [] (Expr.evalList call env site index exprs)
      (Expr.MakesList call inside env held site index exprs) fun values => values := by
  match exprs with
  | [] => exact .quiet (.value [] Hold.values)
  | expr :: exprs =>
      rw [Expr.evalList]
      apply Keeps.bind (Expr.eval_keeps inScope (site.child index) expr)
      intro value
      have others := Expr.evalList_keeps (discipline.inHand inScope value) site (index + 1) exprs
      apply Keeps.bindQuiet (discipline.keeping others)
      intro values
      exact .value (value :: values) Hold.values

end

end

section

variable {within : FrameId → List Hold → Prop} {complies : Call → Prop}
  {I : List Hold → Store → Prop} (discipline : Discipline within complies I)

include discipline

/-- A call uses up the holds on its arguments and ends with a hold on its value. -/
theorem Closure.apply_keeps (depth : Nat) (held : List Hold) (closure : Closure)
    (arguments : List Value) :
    Keeps complies I (.value (.function closure) :: held) arguments (closure.apply depth arguments)
      (closure.Makes depth (.value (.function closure) :: held) arguments)
      fun value => [value] := by
  induction depth generalizing held closure arguments with
  | zero =>
      refine .quiet fun store kept => ?_
      rw [Closure.apply_zero]
      exact discipline.releaseAll arguments store kept
  | succ depth ih =>
      intro store kept comply
      have givenUp := discipline.releaseAll arguments store kept
      by_cases fits : closure.parameters.length = arguments.length
      · cases live : store.isLive closure.home with
        | false =>
            rw [Closure.apply_of_released depth fits live]
            refine ⟨givenUp, ?_⟩
            rintro made (rfl | ⟨-, isLive, -⟩)
            · exact ⟨⟨held, rfl⟩, kept⟩
            · exact absurd (live.symm.trans isLive) Bool.false_ne_true
        | true =>
            have complies := comply _ (Or.inl rfl)
            have entered := discipline.enterCall complies kept fits live
            obtain ⟨ended, atCalls⟩ := discipline.startNull
              (Stmt.evalList_keeps discipline ih (discipline.inFrame _ _) (closure.site.child 0) 0
                .null closure.body) _ entered
              fun made byBody => comply made (Or.inr ⟨fits, live, byBody⟩)
            have isApplied := Closure.apply_of_live depth fits live
            constructor
            · rw [isApplied]
              refine discipline.inFrame_leaves ended fun closure after isLeft => ?_
              exact discipline.handOver complies (isApplied.trans isLeft)
            · rintro made (rfl | ⟨-, -, byBody⟩)
              · exact ⟨⟨held, rfl⟩, kept⟩
              · exact atCalls made byBody
      · rw [Closure.apply_of_wrongCount depth fits]
        refine ⟨givenUp, ?_⟩
        rintro made (rfl | ⟨isFit, -⟩)
        · exact ⟨⟨held, rfl⟩, kept⟩
        · exact absurd isFit fits

/-- A program run within a frame ends with a hold on its value. -/
theorem Program.eval_keeps (depth : Nat) {held : List Hold} {env : FrameId}
    (inScope : within env held) (base : Nat) (program : Program) :
    Keeps complies I held [] (program.eval depth env base) (program.Makes depth env held base)
      fun value => [value] :=
  discipline.startNull
    (Stmt.evalList_keeps discipline (Closure.apply_keeps discipline depth) inScope [] base .null
      program)

end

end Monkey
