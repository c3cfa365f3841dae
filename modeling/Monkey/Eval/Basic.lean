/-
# Evaluation

Evaluation reads and changes a store of frames, and ends in a value or in a signal: a
return on its way to the call around it, a fault, or the end of the depth granted to
nested calls. Recursion over the tree is structural; what a call does is a parameter of
it, and calls themselves are bounded by their depth.

Holds pass from hand to hand. The value of an expression comes with the holds on the
frames that it has captured, and whoever receives it either passes it on or gives it up.
While a value waits for something else to be evaluated it is held: the callee during its
call, the left operand and the earlier arguments while those after them are evaluated,
the condition while a branch runs, and the value of a statement while the next one runs.
-/

import Monkey.Eval.Operation
import Monkey.Store.Basic

namespace Monkey

/-- What stops an evaluation before it has a value. A returned value is held. -/
inductive Signal
  | returned (value : Value)
  | failed (fault : Fault)
  | tooDeep
  deriving DecidableEq

/-- Evaluation of something to a result. -/
abbrev Eval := EStateM Signal Store

namespace Eval

/-- Stop with a fault. -/
def fail {α : Type} (fault : Fault) : Eval α := throw (.failed fault)

/-- The result of an operation, or its fault. -/
def ofExcept {α : Type} : Except Fault α → Eval α
  | .ok result => pure result
  | .error fault => fail fault

/-- Take another hold on a value. -/
def retain (value : Value) : Eval Unit := modify fun store => store.retain value.captured

/-- Give up holds on values, the first one first. -/
def release (values : List Value) : Eval Unit :=
  modify fun store => store.release (values.flatMap Value.captured)

/-- Hold a value while something else is evaluated, and give it up afterwards however that
ends. -/
def holding {α : Type} (value : Value) (inner : Eval α) : Eval α := fun store =>
  match inner store with
  | .ok result store => .ok result (store.release value.captured)
  | .error signal store => .error signal (store.release value.captured)

/-- Hold a value while something else is evaluated, and give it up only if that is stopped. -/
def keeping {α : Type} (value : Value) (inner : Eval α) : Eval α := fun store =>
  match inner store with
  | .ok result store => .ok result store
  | .error signal store => .error signal (store.release value.captured)

/-- The value of a name. The binding keeps its hold, so the value is held once more. -/
def lookup (env : FrameId) (name : String) : Eval Value := do
  match (← get).resolve env name with
  | some value => do
    retain value
    pure value
  | none => fail (.unknownIdentifier name)

/-- Bind a name to a value that is needed afterwards as well. -/
def bind (env : FrameId) (name : String) (value : Value) : Eval Unit := do
  retain value
  modify fun store => store.define env name value

/-- Run the body of a call in the frame of that call. The value, returned or not, is the
value of the call. The call gives its frame up, unless the value is a function: that
one takes the hold of the call over. -/
def inFrame (frame : FrameId) (body : Eval Value) : Eval Value := fun store =>
  match body store with
  | .ok value store => leave value store
  | .error (.returned value) store => leave value store
  | .error signal store => .error signal (store.release [frame])
where
  leave (value : Value) (store : Store) : EStateM.Result Signal Store Value :=
    match value with
    | .function closure => .ok (.function (closure.returnedFrom frame)) store
    | value => .ok value (store.release [frame])

end Eval

section

variable (call : Closure → List Value → Eval Value) (env : FrameId)

mutual

/-- The value of an expression in a frame. -/
def Expr.eval : Site → Expr → Eval Value
  | _, .ident name => Eval.lookup env name
  | _, .int value => pure (.int value)
  | _, .bool value => pure (.bool value)
  | site, .prefixOp op operand => do
    let operand ← operand.eval (site.child 0)
    Eval.holding operand (Eval.ofExcept (op.apply operand))
  | site, .infixOp op left right => do
    let left ← left.eval (site.child 0)
    Eval.holding left do
      let right ← right.eval (site.child 1)
      Eval.holding right (Eval.ofExcept (op.apply left right))
  | site, .ifElse condition consequence none => do
    let condition ← condition.eval (site.child 0)
    Eval.holding condition <|
      if condition.truthy then Stmt.evalList (site.child 1) 0 .null consequence
      else pure .null
  | site, .ifElse condition consequence (some alternative) => do
    let condition ← condition.eval (site.child 0)
    Eval.holding condition <|
      if condition.truthy then Stmt.evalList (site.child 1) 0 .null consequence
      else Stmt.evalList (site.child 2) 0 .null alternative
  | site, .fn parameters body => pure (.function ⟨parameters, body, site, env, []⟩)
  | site, .call callee arguments => do
    let callee ← callee.eval (site.child 0)
    Eval.holding callee <|
      match callee with
      | .function closure => do
        let arguments ← Expr.evalList (site.child 1) 0 arguments
        call closure arguments
      | other => Eval.fail (.notAFunction other.kind)
  termination_by structural _ expr => expr

/-- The value of a statement in a frame; a return has none. -/
def Stmt.eval : Site → Stmt → Eval Value
  | site, .letBind name value => do
    let value ← value.eval site
    Eval.bind env name value
    pure value
  | site, .ret value => do
    let value ← value.eval site
    throw (.returned value)
  | site, .expr value => value.eval site
  termination_by structural _ stmt => stmt

/-- The value of the last of some statements, or the value before them if there are none.
Statements are numbered from `index` on. -/
def Stmt.evalList : Site → Nat → Value → List Stmt → Eval Value
  | _, _, before, [] => pure before
  | site, index, before, stmt :: stmts => do
    let value ← Eval.holding before (stmt.eval (site.child index))
    Stmt.evalList site (index + 1) value stmts
  termination_by structural _ _ _ stmts => stmts

/-- The values of some expressions, from left to right. They are numbered from `index` on. -/
def Expr.evalList : Site → Nat → List Expr → Eval (List Value)
  | _, _, [] => pure []
  | site, index, expr :: exprs => do
    let value ← expr.eval (site.child index)
    let values ← Eval.keeping value (Expr.evalList site (index + 1) exprs)
    pure (value :: values)
  termination_by structural _ _ exprs => exprs

end

end

/-- Call a function with the values of its arguments, granting the calls inside it a depth
of one less. The number of arguments is checked before the home of the function is asked
for, and the frame of the call lies inside that home. -/
def Closure.apply : Nat → Closure → List Value → Eval Value
  | 0, _, arguments => do
    Eval.release arguments
    throw .tooDeep
  | depth + 1, closure, arguments => do
    if closure.parameters.length ≠ arguments.length then
      Eval.release arguments
      Eval.fail (.wrongArgumentCount closure.parameters.length arguments.length)
    else if !(← get).isLive closure.home then
      Eval.release arguments
      Eval.fail .releasedEnvironment
    else
      let frame ← modifyGet fun store => store.alloc (some closure.home)
      modify fun store => store.defineAll frame (closure.parameters.zip arguments)
      Eval.inFrame frame <|
        Stmt.evalList (Closure.apply depth) frame (closure.site.child 0) 0 .null closure.body

/-- Run a program in a frame, with a depth granted to nested calls. Its statements are
numbered from `base` on among all that have been loaded. -/
def Program.eval (depth : Nat) (env : FrameId) (base : Nat) (program : Program) : Eval Value :=
  Stmt.evalList (Closure.apply depth) env [] base .null program

end Monkey
