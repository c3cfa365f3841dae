/-
# Evaluation with a record of where functions come from

A function value shows its parameters, and nothing that programs can do shows where it was
made. To speak of that, evaluation is written once more with a record beside the store. Each
evaluation of a function literal is entered in the record as a birth and numbered, and its
value is handed on with a pedigree: that number, and no returns yet. Binding a function,
looking it up, passing it and handing it through conditionals and blocks leave its pedigree as
it is. A call that ends in a function adds its own frame to the returns. Nothing of the record
is ever asked when it is decided how to go on, and the pedigrees are kept beside the values,
so that what functions themselves remember can be compared with them.
-/

import Monkey.Eval.Outcome
import Monkey.Proofs.Program.Literals

namespace Monkey

/-- One evaluation of a function literal: which literal, and in which frame. -/
structure Birth where
  literal : Literal
  home : FrameId
  deriving DecidableEq

/-- Where a function comes from: the number of its birth, and the frames of the calls that it
has been returned from since, in order. -/
structure Pedigree where
  birth : Nat
  returns : List FrameId
  deriving DecidableEq

/-- A value with the pedigree that it is handed on with, if it is a function. -/
structure Item where
  value : Value
  pedigree : Option Pedigree
  deriving DecidableEq

/-- What is recorded of an evaluation: the births so far, the pedigrees of the values that are
bound in frames, and the items that names, literals and calls have come to. -/
structure Record where
  births : List Birth
  bound : FrameId → String → Option Pedigree
  seen : List Item

/-- A store, and the record of how it came about. -/
structure World where
  store : Store
  record : Record

/-- A value that is no function. -/
def Item.plain (value : Value) : Item := ⟨value, none⟩

/-- Nothing has been recorded. -/
def Record.empty : Record := ⟨[], fun _ _ => none, []⟩

namespace World

/-- Change the store and leave the record. -/
def onStore (world : World) (change : Store → Store) : World :=
  { world with store := change world.store }

/-- Enter a birth. -/
def enter (world : World) (birth : Birth) : World :=
  { world with record := { world.record with births := world.record.births ++ [birth] } }

/-- Enter an item that something has come to. -/
def see (world : World) (item : Item) : World :=
  { world with record := { world.record with seen := world.record.seen ++ [item] } }

/-- Bind a name to an item. -/
def define (world : World) (env : FrameId) (name : String) (item : Item) : World where
  store := world.store.define env name item.value
  record := { world.record with
    bound := fun id key => if id = env ∧ key = name then item.pedigree else world.record.bound id key }

/-- Bind names one after the other. -/
def defineAll (world : World) (env : FrameId) (bindings : List (String × Item)) : World :=
  bindings.foldl (fun world binding => world.define env binding.1 binding.2) world

/-- The item that a name has in a frame, found as its value is. -/
def resolve (world : World) (id : FrameId) (name : String) : Option Item :=
  match world.store.frame? id with
  | none => none
  | some frame =>
    match frame.bindings.find? name with
    | some value => some ⟨value, world.record.bound id name⟩
    | none =>
      match frame.outer with
      | none => none
      | some outer => if outer.index < id.index then world.resolve outer name else none
termination_by id.index

end World

namespace Lineage

/-- What stops an evaluation before it has an item. -/
inductive Signal
  | returned (item : Item)
  | failed (fault : Fault)
  | tooDeep

/-- Evaluation of something to a result, with a record. -/
abbrev Eval := EStateM Signal World

/-- Stop with a fault. -/
def fail {α : Type} (fault : Fault) : Eval α := throw (.failed fault)

/-- The result of an operation, which is no function, or its fault. -/
def ofExcept : Except Fault Value → Eval Item
  | .ok value => pure (.plain value)
  | .error fault => fail fault

/-- Take another hold on a value. -/
def retain (item : Item) : Eval Unit :=
  modify fun world => world.onStore (·.retain item.value.captured)

/-- Give up holds on values, the first one first. -/
def release (items : List Item) : Eval Unit :=
  modify fun world => world.onStore (·.release (items.flatMap (·.value.captured)))

/-- Hold a value while something else is evaluated, and give it up afterwards however that
ends. -/
def holding {α : Type} (item : Item) (inner : Eval α) : Eval α := fun world =>
  match inner world with
  | .ok result world => .ok result (world.onStore (·.release item.value.captured))
  | .error signal world => .error signal (world.onStore (·.release item.value.captured))

/-- Hold a value while something else is evaluated, and give it up only if that is stopped. -/
def keeping {α : Type} (item : Item) (inner : Eval α) : Eval α := fun world =>
  match inner world with
  | .ok result world => .ok result world
  | .error signal world => .error signal (world.onStore (·.release item.value.captured))

/-- Enter the item that something comes to. -/
def noted (action : Eval Item) : Eval Item := do
  let item ← action
  modify fun world => world.see item
  pure item

/-- The item of a name. -/
def lookup (env : FrameId) (name : String) : Eval Item := do
  match (← get).resolve env name with
  | some item => do
    retain item
    pure item
  | none => fail (.unknownIdentifier name)

/-- Looking a name up takes one more hold on what it finds. -/
theorem lookup_apply (env : FrameId) (name : String) (world : World) :
    lookup env name world =
      match world.resolve env name with
      | some item => .ok item (world.onStore (·.retain item.value.captured))
      | none => .error (.failed (.unknownIdentifier name)) world := by
  have unfolded : lookup env name world =
      (match world.resolve env name with
        | some item => (do retain item; return item)
        | none => fail (.unknownIdentifier name)) world := rfl
  rw [unfolded]
  cases world.resolve env name with
  | some item => rfl
  | none => rfl

/-- Bind a name to an item that is needed afterwards as well. -/
def bind (env : FrameId) (name : String) (item : Item) : Eval Unit := do
  retain item
  modify fun world => world.define env name item

/-- Evaluate a function literal: the birth of a function that has not been returned yet. -/
def born (env : FrameId) (literal : Literal) : Eval Item := fun world =>
  .ok ⟨.function ⟨literal.parameters, literal.body, literal.site, env, []⟩,
    some ⟨world.record.births.length, []⟩⟩ (world.enter ⟨literal, env⟩)

/-- A pedigree with one more return. -/
def returnedFrom (pedigree : Pedigree) (frame : FrameId) : Pedigree :=
  { pedigree with returns := pedigree.returns ++ [frame] }

/-- Run the body of a call in the frame of that call. A function is returned from it. -/
def inFrame (frame : FrameId) (body : Eval Item) : Eval Item := fun world =>
  match body world with
  | .ok item world => leave item world
  | .error (.returned item) world => leave item world
  | .error signal world => .error signal (world.onStore (·.release [frame]))
where
  leave (item : Item) (world : World) : EStateM.Result Signal World Item :=
    match item.value with
    | .function closure =>
      .ok ⟨.function (closure.returnedFrom frame), item.pedigree.map (returnedFrom · frame)⟩ world
    | _ => .ok item (world.onStore (·.release [frame]))

section

variable (call : Closure → List Item → Eval Item) (env : FrameId)

mutual

/-- The item of an expression in a frame. -/
def evalExpr : Site → Expr → Eval Item
  | _, .ident name => noted (lookup env name)
  | _, .int value => pure (.plain (.int value))
  | _, .bool value => pure (.plain (.bool value))
  | site, .prefixOp op operand => do
    let operand ← evalExpr (site.child 0) operand
    holding operand (ofExcept (op.apply operand.value))
  | site, .infixOp op left right => do
    let left ← evalExpr (site.child 0) left
    holding left do
      let right ← evalExpr (site.child 1) right
      holding right (ofExcept (op.apply left.value right.value))
  | site, .ifElse condition consequence none => do
    let condition ← evalExpr (site.child 0) condition
    holding condition <|
      if condition.value.truthy then evalBlock (site.child 1) 0 (.plain .null) consequence
      else pure (.plain .null)
  | site, .ifElse condition consequence (some alternative) => do
    let condition ← evalExpr (site.child 0) condition
    holding condition <|
      if condition.value.truthy then evalBlock (site.child 1) 0 (.plain .null) consequence
      else evalBlock (site.child 2) 0 (.plain .null) alternative
  | site, .fn parameters body => noted (born env ⟨site, parameters, body⟩)
  | site, .call callee arguments => do
    let callee ← evalExpr (site.child 0) callee
    holding callee <|
      match callee.value with
      | .function closure => do
        let arguments ← evalArguments (site.child 1) 0 arguments
        noted (call closure arguments)
      | other => fail (.notAFunction other.kind)
  termination_by structural _ expr => expr

/-- The item of a statement in a frame; a return has none. -/
def evalStmt : Site → Stmt → Eval Item
  | site, .letBind name value => do
    let item ← evalExpr site value
    bind env name item
    pure item
  | site, .ret value => do
    let item ← evalExpr site value
    throw (.returned item)
  | site, .expr value => evalExpr site value
  termination_by structural _ stmt => stmt

/-- The item of the last of some statements, or the one before them if there are none. -/
def evalBlock : Site → Nat → Item → List Stmt → Eval Item
  | _, _, before, [] => pure before
  | site, index, before, stmt :: stmts => do
    let item ← holding before (evalStmt (site.child index) stmt)
    evalBlock site (index + 1) item stmts
  termination_by structural _ _ _ stmts => stmts

/-- The items of some expressions, from left to right. -/
def evalArguments : Site → Nat → List Expr → Eval (List Item)
  | _, _, [] => pure []
  | site, index, expr :: exprs => do
    let item ← evalExpr (site.child index) expr
    let items ← keeping item (evalArguments site (index + 1) exprs)
    pure (item :: items)
  termination_by structural _ _ exprs => exprs

end

end

/-- Call a function in a new frame inside its home. -/
def apply : Nat → Closure → List Item → Eval Item
  | 0, _, arguments => do
    release arguments
    throw .tooDeep
  | depth + 1, closure, arguments => do
    if closure.parameters.length ≠ arguments.length then
      release arguments
      fail (.wrongArgumentCount closure.parameters.length arguments.length)
    else if !(← get).store.isLive closure.home then
      release arguments
      fail .releasedEnvironment
    else
      let frame ← modifyGet fun world =>
        ((world.store.alloc (some closure.home)).1,
          world.onStore fun store => (store.alloc (some closure.home)).2)
      modify fun world => world.defineAll frame (closure.parameters.zip arguments)
      inFrame frame <|
        evalBlock (apply depth) frame (closure.site.child 0) 0 (.plain .null) closure.body

end Lineage

end Monkey
