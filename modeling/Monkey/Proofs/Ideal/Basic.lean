/-
# Evaluation with frames that last

What programs mean when nobody counts holds. A frame lasts for ever, a function simply
owns the frame in which its literal was evaluated, and a call is made in a fresh frame
inside that one. Otherwise everything is as the language has it: parts are evaluated
from left to right, the callee is looked at before its arguments are evaluated and their
number after that, a block runs in the frame around it, and an evaluation ends in a
value, a return on its way, or a fault.

Calls are bounded by a depth, and a program ends if some depth is enough for it.
-/

import Mathlib.Logic.Basic
import Monkey.Bindings
import Monkey.Eval.Fault

namespace Monkey.Ideal

/-! ## Values -/

/-- A function: a literal with its place, and the frame in which it was evaluated. -/
structure Closure where
  parameters : List String
  body : Block
  site : Site
  home : FrameId
  deriving DecidableEq

/-- What expressions evaluate to. -/
inductive Value
  | int (value : Int64)
  | bool (value : Bool)
  | null
  | function (closure : Closure)
  deriving DecidableEq

namespace Value

/-- The kind of a value. -/
def kind : Value → ValueKind
  | int _ => .integer
  | bool _ => .boolean
  | null => .null
  | function _ => .function

/-- Only `false` and null are no truth. -/
def truthy : Value → Bool
  | bool value => value
  | null => false
  | _ => true

/-- Equality of values; functions are equal if they are one literal in one frame. -/
def same : Value → Value → Bool
  | int first, int second => first == second
  | bool first, bool second => first == second
  | null, null => true
  | function first, function second =>
    first.parameters == second.parameters && first.site == second.site &&
      first.home == second.home
  | _, _ => false

end Value

/-- An operator before its operand. -/
def negate : PrefixOp → Value → Except Fault Value
  | .bang, operand => .ok (.bool !operand.truthy)
  | .minus, .int value => .ok (.int (-value))
  | .minus, operand => .error (.unknownPrefixOperator .minus operand.kind)

/-- An operator between two integers of 64 bits. -/
def calculate (left right : Int64) : InfixOp → Except Fault Value
  | .plus => .ok (.int (left + right))
  | .minus => .ok (.int (left - right))
  | .multiply => .ok (.int (left * right))
  | .divide => if right = 0 then .error .divisionByZero else .ok (.int (left / right))
  | .lessThan => .ok (.bool (left < right))
  | .greaterThan => .ok (.bool (right < left))
  | .equal => .ok (.bool (left == right))
  | .notEqual => .ok (.bool (left != right))

/-- An operator between two values. -/
def combine (op : InfixOp) (left right : Value) : Except Fault Value :=
  match left, right with
  | .int first, .int second => calculate first second op
  | _, _ =>
    match op with
    | .equal => .ok (.bool (left.same right))
    | .notEqual => .ok (.bool !left.same right)
    | _ =>
      if left.kind = right.kind then .error (.unknownInfixOperator op left.kind right.kind)
      else .error (.typeMismatch op left.kind right.kind)

/-! ## Frames -/

/-- The bindings of one scope, and the frame around it. -/
structure Frame where
  bindings : Bindings Value
  outer : Option FrameId
  deriving DecidableEq

/-- All frames ever made, by index. -/
structure Heap where
  frames : Array Frame
  deriving DecidableEq

namespace Heap

/-- No frame has been made yet. -/
def empty : Heap := ⟨#[]⟩

/-- The frame of this name, if it has been made. -/
def frame? (heap : Heap) (id : FrameId) : Option Frame := heap.frames[id.index]?

/-- Make an empty frame inside another, or outside of all. -/
def alloc (heap : Heap) (outer : Option FrameId) : FrameId × Heap :=
  (⟨heap.frames.size⟩, ⟨heap.frames.push ⟨.empty, outer⟩⟩)

/-- Bind a name in a frame. -/
def define (heap : Heap) (id : FrameId) (name : String) (value : Value) : Heap :=
  match heap.frame? id with
  | none => heap
  | some frame =>
    let bound := { frame with bindings := frame.bindings.insert name value }
    ⟨heap.frames.setIfInBounds id.index bound⟩

/-- Bind names one after the other; a name that comes again is bound again. -/
def defineAll (heap : Heap) (id : FrameId) (bindings : List (String × Value)) : Heap :=
  bindings.foldl (fun heap binding => heap.define id binding.1 binding.2) heap

/-- The value that a name has in a frame: the binding there, or else the one around it,
which is always older. -/
def resolve (heap : Heap) (id : FrameId) (name : String) : Option Value :=
  match heap.frame? id with
  | none => none
  | some frame =>
    match frame.bindings.find? name with
    | some value => some value
    | none =>
      match frame.outer with
      | none => none
      | some outer => if outer.index < id.index then heap.resolve outer name else none
termination_by id.index

end Heap

/-! ## Evaluation -/

/-- What stops an evaluation before it has a value. -/
inductive Signal
  | returned (value : Value)
  | failed (fault : Fault)
  | tooDeep
  deriving DecidableEq

/-- Evaluation of something to a result. -/
abbrev Eval := EStateM Signal Heap

/-- Stop with a fault. -/
def fail {α : Type} (fault : Fault) : Eval α := throw (.failed fault)

/-- The result of an operation, or its fault. -/
def ofExcept {α : Type} : Except Fault α → Eval α
  | .ok result => pure result
  | .error fault => fail fault

/-- The value of a name. -/
def lookup (env : FrameId) (name : String) : Eval Value := do
  match (← get).resolve env name with
  | some value => pure value
  | none => fail (.unknownIdentifier name)

/-- Bind a name. -/
def bind (env : FrameId) (name : String) (value : Value) : Eval Unit :=
  modify fun heap => heap.define env name value

/-- A return goes no further than the call that it belongs to. -/
def unwrap (body : Eval Value) : Eval Value := fun heap =>
  match body heap with
  | .error (.returned value) heap => .ok value heap
  | ended => ended

section

variable (call : Closure → List Value → Eval Value) (env : FrameId)

mutual

/-- The value of an expression in a frame. -/
def evalExpr : Site → Expr → Eval Value
  | _, .ident name => lookup env name
  | _, .int value => pure (.int value)
  | _, .bool value => pure (.bool value)
  | site, .prefixOp op operand => do
    let operand ← evalExpr (site.child 0) operand
    ofExcept (negate op operand)
  | site, .infixOp op left right => do
    let left ← evalExpr (site.child 0) left
    let right ← evalExpr (site.child 1) right
    ofExcept (combine op left right)
  | site, .ifElse condition consequence none => do
    let condition ← evalExpr (site.child 0) condition
    if condition.truthy then evalBlock (site.child 1) 0 .null consequence
    else pure .null
  | site, .ifElse condition consequence (some alternative) => do
    let condition ← evalExpr (site.child 0) condition
    if condition.truthy then evalBlock (site.child 1) 0 .null consequence
    else evalBlock (site.child 2) 0 .null alternative
  | site, .fn parameters body => pure (.function ⟨parameters, body, site, env⟩)
  | site, .call callee arguments => do
    let callee ← evalExpr (site.child 0) callee
    match callee with
    | .function closure => do
      let arguments ← evalArguments (site.child 1) 0 arguments
      call closure arguments
    | other => fail (.notAFunction other.kind)
  termination_by structural _ expr => expr

/-- The value of a statement in a frame; a return has none. -/
def evalStmt : Site → Stmt → Eval Value
  | site, .letBind name value => do
    let value ← evalExpr site value
    bind env name value
    pure value
  | site, .ret value => do
    let value ← evalExpr site value
    throw (.returned value)
  | site, .expr value => evalExpr site value
  termination_by structural _ stmt => stmt

/-- The value of the last of some statements, or the value before them if there are none. -/
def evalBlock : Site → Nat → Value → List Stmt → Eval Value
  | _, _, before, [] => pure before
  | site, index, _, stmt :: stmts => do
    let value ← evalStmt (site.child index) stmt
    evalBlock site (index + 1) value stmts
  termination_by structural _ _ _ stmts => stmts

/-- The values of some expressions, from left to right. -/
def evalArguments : Site → Nat → List Expr → Eval (List Value)
  | _, _, [] => pure []
  | site, index, expr :: exprs => do
    let value ← evalExpr (site.child index) expr
    let values ← evalArguments site (index + 1) exprs
    pure (value :: values)
  termination_by structural _ _ exprs => exprs

end

end

/-- Call a function in a fresh frame inside its home. -/
def apply : Nat → Closure → List Value → Eval Value
  | 0, _, _ => throw .tooDeep
  | depth + 1, closure, arguments => do
    if closure.parameters.length ≠ arguments.length then
      fail (.wrongArgumentCount closure.parameters.length arguments.length)
    else
      let frame ← modifyGet fun heap => heap.alloc (some closure.home)
      modify fun heap => heap.defineAll frame (closure.parameters.zip arguments)
      unwrap (evalBlock (apply depth) frame (closure.site.child 0) 0 .null closure.body)

/-- Looking a name up leaves the heap as it is. -/
theorem lookup_apply (env : FrameId) (name : String) (heap : Heap) :
    lookup env name heap =
      match heap.resolve env name with
      | some value => .ok value heap
      | none => .error (.failed (.unknownIdentifier name)) heap := by
  have unfolded : lookup env name heap =
      (match heap.resolve env name with
        | some value => pure value
        | none => fail (.unknownIdentifier name)) heap := rfl
  rw [unfolded]
  cases heap.resolve env name <;> rfl

theorem apply_of_wrongCount (depth : Nat) {closure : Closure} {arguments : List Value}
    (wrong : closure.parameters.length ≠ arguments.length) (heap : Heap) :
    apply (depth + 1) closure arguments heap =
      .error (.failed (.wrongArgumentCount closure.parameters.length arguments.length)) heap := by
  rw [apply, if_pos wrong]
  rfl

/-- The body of a call runs in a new frame in which the parameters are bound. -/
theorem apply_of_fits (depth : Nat) {closure : Closure} {arguments : List Value}
    (fits : closure.parameters.length = arguments.length) (heap : Heap) :
    apply (depth + 1) closure arguments heap =
      unwrap
        (evalBlock (apply depth) (heap.alloc (some closure.home)).1 (closure.site.child 0) 0 .null
          closure.body)
        ((heap.alloc (some closure.home)).2.defineAll (heap.alloc (some closure.home)).1
          (closure.parameters.zip arguments)) := by
  rw [apply, if_neg (not_ne_iff.mpr fits)]
  rfl

/-- How a program ends. -/
inductive Outcome
  | value (result : Value)
  | returned (result : Value)
  | failed (fault : Fault)
  | tooDeep
  deriving DecidableEq

/-- Run a program in a frame, with a depth granted to nested calls. -/
def run (depth : Nat) (env : FrameId) (base : Nat) (program : Program) (heap : Heap) :
    Outcome × Heap :=
  match evalBlock (apply depth) env [] base .null program heap with
  | .ok value after => (.value value, after)
  | .error (.returned value) after => (.returned value, after)
  | .error (.failed fault) after => (.failed fault, after)
  | .error .tooDeep after => (.tooDeep, after)

/-- Some depth is enough for the program to end like this. -/
def Ends (env : FrameId) (base : Nat) (program : Program) (heap : Heap) (outcome : Outcome)
    (after : Heap) : Prop :=
  outcome ≠ .tooDeep ∧ ∃ depth, run depth env base program heap = (outcome, after)

end Monkey.Ideal
