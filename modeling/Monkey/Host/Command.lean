/-
# Commands

What a host can do in one step, and what it is answered. Commands name the things that
they are about by the slots in which the host keeps them. A handle on a scope holds it;
a weak handle only tells whether the scope still exists. A command that names an empty
slot is refused.
-/

import Monkey.Eval.Outcome
import Monkey.Parse.Diagnostic

namespace Monkey

/-- A value that a command brings along. -/
inductive Operand
  | int (value : Int64)
  | bool (value : Bool)
  | null
  | slot (name : String)
  deriving DecidableEq, Repr

/-- One step of a host. -/
inductive Command
  | newScope (into : String)
  | childScope (scope into : String)
  | aliasScope (scope into : String)
  | define (scope name : String) (operand : Operand)
  | resolve (scope name : String) (into : Option String)
  | sameScope (first second : String)
  | downgrade (scope into : String)
  | upgrade (handle : String) (into : Option String)
  | dropScope (scope : String)
  | dropValue (value : String)
  | load (source into : String)
  | run (program scope : String) (into : Option String)
  | evaluate (scope source : String) (into : Option String)
  | inspect (value : String)
  | equal (first second : String)
  | makeFunction (scope : String) (parameters : List String) (body into : String)
  | capture (value scope into : String)
  | uncapture (value into : String)
  deriving DecidableEq, Repr

/-- Why a command was refused. -/
inductive Refusal
  | noSuchSlot (name : String)
  | notAFunction
  deriving DecidableEq, Repr

/-- The text that the user sees. -/
def Refusal.message : Refusal → String
  | noSuchSlot name => "no such slot " ++ name
  | notAFunction => "not a function slot"

/-- The answer to a command. Values are described as they stand when it is given. -/
inductive Reply
  | done
  | flag (holds : Bool)
  | unbound
  | described (description : Description)
  | ended (outcome : Outcome) (description : Option Description)
  | rejected (diagnostics : List Diagnostic)
  deriving DecidableEq

end Monkey
