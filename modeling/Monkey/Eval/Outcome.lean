/-
# Outcomes

How running a program ends, seen from outside: with a value, with a value that a
return statement at top level handed out, or with a fault. A run that would have
needed deeper calls than it was granted has no outcome of its own and is kept apart.

An outcome still holds its value. What an observer can tell about a value depends on
the store at that moment, since the home of a function may be gone; a description
records it.
-/

import Monkey.Eval.Basic

namespace Monkey

/-- How a run ends. -/
inductive Outcome
  | value (result : Value)
  | returned (result : Value)
  | failed (fault : Fault)
  | tooDeep
  deriving DecidableEq

namespace Outcome

/-- The value that a run ends with, returned or not. -/
def value? : Outcome → Option Value
  | .value result => some result
  | .returned result => some result
  | _ => none

/-- The frames that an outcome holds. -/
def captured (outcome : Outcome) : List FrameId :=
  match outcome.value? with
  | some result => result.captured
  | none => []

/-- The text that the user sees. A returned value is shown like any other. -/
def shown : Outcome → String
  | .value result => result.inspect
  | .returned result => result.inspect
  | .failed fault => "ERROR: " ++ fault.message
  | .tooDeep => "ERROR: calls are nested too deeply"

end Outcome

/-- Evaluate from a store on, and tell how it ends. -/
def Eval.outcome (action : Eval Value) (store : Store) : Outcome × Store :=
  match action store with
  | .ok value store => (.value value, store)
  | .error (.returned value) store => (.returned value, store)
  | .error (.failed fault) store => (.failed fault, store)
  | .error .tooDeep store => (.tooDeep, store)

/-- What can be told about a function: its parameters, the written form of its body, whether
its home still exists, and how many frames it has captured. -/
structure ClosureDescription where
  parameters : List String
  body : String
  homeIsLive : Bool
  captured : Nat
  deriving DecidableEq, Repr

/-- What can be told about a value at some moment. -/
structure Description where
  kind : ValueKind
  inspect : String
  truthy : Bool
  closure : Option ClosureDescription
  deriving DecidableEq, Repr

/-- Describe a function as the store stands. -/
def Store.describeClosure (store : Store) (closure : Closure) : ClosureDescription where
  parameters := closure.parameters
  body := Block.render closure.body
  homeIsLive := store.isLive closure.home
  captured := closure.captured.length

/-- Describe a value as the store stands. -/
def Store.describe (store : Store) (value : Value) : Description where
  kind := value.kind
  inspect := value.inspect
  truthy := value.truthy
  closure :=
    match value with
    | .function closure => some (store.describeClosure closure)
    | _ => none

end Monkey
