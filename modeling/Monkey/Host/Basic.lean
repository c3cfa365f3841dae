/-
# Hosts

A host embeds the language: it makes scopes and holds them, defines names and looks
them up, runs programs, and keeps the values they end with. Everything that is held from
outside the store is in one of its slots, so the holds on a frame can be accounted for.

Whatever a slot held before is given up once the command has been answered.
-/

import Monkey.Host.Command
import Monkey.Parse.Basic

namespace Monkey

/-- The store and everything that is held in it from outside. -/
structure Host where
  store : Store
  scopes : Bindings FrameId
  weakHandles : Bindings FrameId
  values : Bindings Value
  /-- Programs with the number of the first statement of each. -/
  programs : Bindings (Nat × Program)
  loaded : Nat

namespace Host

/-- A host that holds nothing. -/
def start : Host := ⟨.empty, .empty, .empty, .empty, .empty, 0⟩

/-! ## What is in the slots -/

/-- What is in a slot, which has to be filled. -/
def filled {α : Type} (slots : Bindings α) (name : String) : Except Refusal α :=
  match slots.find? name with
  | some item => .ok item
  | none => .error (.noSuchSlot name)

/-- The scope in a slot. -/
def scope (host : Host) (name : String) : Except Refusal FrameId := filled host.scopes name

/-- The scope that a weak handle is on, whether it still exists or not. -/
def weakHandle (host : Host) (name : String) : Except Refusal FrameId :=
  filled host.weakHandles name

/-- The value in a slot. -/
def value (host : Host) (name : String) : Except Refusal Value := filled host.values name

/-- The program in a slot, and the number of its first statement. -/
def program (host : Host) (name : String) : Except Refusal (Nat × Program) :=
  filled host.programs name

/-- The function that a value is. -/
def asFunction : Value → Except Refusal Closure
  | .function closure => .ok closure
  | _ => .error .notAFunction

/-- The value that a command brings along. -/
def operand (host : Host) : Operand → Except Refusal Value
  | .int value => .ok (.int value)
  | .bool value => .ok (.bool value)
  | .null => .ok .null
  | .slot name => host.value name

/-- Take another hold on frames. -/
def retain (host : Host) (frames : List FrameId) : Host :=
  { host with store := host.store.retain frames }

/-- Give up holds on frames. -/
def release (host : Host) (frames : List FrameId) : Host :=
  { host with store := host.store.release frames }

/-! ## Filling and emptying slots -/

/-- Keep a held scope in a slot, and give up the one before. -/
def keepScope (host : Host) (into : String) (frame : FrameId) : Host :=
  { host with scopes := host.scopes.insert into frame }.release
    (host.scopes.find? into).toList

/-- Keep a held value in a slot, and give up the one before. -/
def keepValue (host : Host) (into : String) (value : Value) : Host :=
  { host with values := host.values.insert into value }.release
    ((host.values.find? into).elim [] Value.captured)

/-- Keep a held value in a slot if one is named, and give it up otherwise. -/
def keepOrGiveUp (host : Host) (into : Option String) (value : Value) : Host :=
  match into with
  | some into => host.keepValue into value
  | none => host.release value.captured

/-- Describe a held value and keep it in a slot. -/
def describeAndKeep (host : Host) (into : String) (value : Value) : Reply × Host :=
  (.described (host.store.describe value), host.keepValue into value)

/-- Make a frame and keep it in a slot. -/
def newFrame (host : Host) (outer : Option FrameId) (into : String) : Host :=
  let fresh := host.store.alloc outer
  { host with store := fresh.2 }.keepScope into fresh.1

/-- Empty a slot for scopes, and tell whether there was one. -/
def dropScope (host : Host) (name : String) : Reply × Host :=
  match host.scopes.find? name with
  | none => (.flag false, host)
  | some frame => (.flag true, { host with scopes := host.scopes.erase name }.release [frame])

/-- Empty a slot for values, and tell whether there was one. -/
def dropValue (host : Host) (name : String) : Reply × Host :=
  match host.values.find? name with
  | none => (.flag false, host)
  | some value =>
    (.flag true, { host with values := host.values.erase name }.release value.captured)

/-! ## Names and values -/

/-- Bind a name in a scope. The value may stay in a slot as well. -/
def define (host : Host) (frame : FrameId) (name : String) (value : Value) : Host :=
  let retained := host.retain value.captured
  { retained with store := retained.store.define frame name value }

/-- Look a name up, and keep its value if a slot is named. -/
def resolve (host : Host) (frame : FrameId) (name : String) (into : Option String) :
    Reply × Host :=
  match host.store.resolve frame name, into with
  | none, _ => (.unbound, host)
  | some value, none => (.described (host.store.describe value), host)
  | some value, some into => (host.retain value.captured).describeAndKeep into value

/-- Ask a weak handle for its scope, and keep that if a slot is named. -/
def upgrade (host : Host) (frame : FrameId) (into : Option String) : Reply × Host :=
  match host.store.isLive frame, into with
  | true, some into => (.flag true, (host.retain [frame]).keepScope into frame)
  | live, _ => (.flag live, host)

/-- Copy a function so that it holds one more frame, and keep the copy. -/
def capture (host : Host) (closure : Closure) (frame : FrameId) (into : String) :
    Reply × Host :=
  let copy := closure.returnedFrom frame
  (host.retain copy.captured).describeAndKeep into (.function copy)

/-! ## Loading and running -/

/-- The number of the next statement, and the host after so many more have been loaded. -/
def reserve (host : Host) (count : Nat) : Nat × Host :=
  (host.loaded, { host with loaded := host.loaded + count })

/-- Do something with the program that a source holds, if it is sound. -/
def withProgram (host : Host) (source : String) (use : Program → Reply × Host) :
    Reply × Host :=
  match (parse source).toExcept with
  | .error diagnostics => (.rejected diagnostics, host)
  | .ok program => use program

/-- Read a program and keep it. -/
def load (host : Host) (source into : String) : Reply × Host :=
  host.withProgram source fun program =>
    let (base, after) := host.reserve program.length
    (.done, { after with programs := after.programs.insert into (base, program) })

/-- Run a program that has been loaded. An outcome without a value leaves the slot alone. -/
def run (host : Host) (depth : Nat) (frame : FrameId) (base : Nat) (program : Program)
    (into : Option String) : Reply × Host :=
  let ended := Eval.outcome (program.eval depth frame base) host.store
  let after := { host with store := ended.2 }
  match ended.1.value? with
  | none => (.ended ended.1 none, after)
  | some value =>
    (.ended ended.1 (some (after.store.describe value)), after.keepOrGiveUp into value)

/-- Read a program and run it at once. -/
def evaluate (host : Host) (depth : Nat) (frame : FrameId) (source : String)
    (into : Option String) : Reply × Host :=
  host.withProgram source fun program =>
    let (base, after) := host.reserve program.length
    after.run depth frame base program into

/-- Make a function from the source of its body, as a literal in a statement of its own
would. -/
def makeFunction (host : Host) (frame : FrameId) (parameters : List String)
    (body into : String) : Reply × Host :=
  host.withProgram body fun body =>
    let (base, after) := host.reserve 1
    after.describeAndKeep into (.function ⟨parameters, body, Site.child [] base, frame, []⟩)

/-! ## Commands -/

/-- Do what a command says, granting each run a depth of nested calls. -/
def perform (host : Host) (depth : Nat) : Command → Except Refusal (Reply × Host)
  | .newScope into => return (.done, host.newFrame none into)
  | .childScope scope into => do
    let frame ← host.scope scope
    return (.done, host.newFrame (some frame) into)
  | .aliasScope scope into => do
    let frame ← host.scope scope
    return (.done, (host.retain [frame]).keepScope into frame)
  | .define scope name operand => do
    let value ← host.operand operand
    let frame ← host.scope scope
    return (.done, host.define frame name value)
  | .resolve scope name into => do
    let frame ← host.scope scope
    return host.resolve frame name into
  | .sameScope first second => do
    let first ← host.scope first
    let second ← host.scope second
    return (.flag (first == second), host)
  | .downgrade scope into => do
    let frame ← host.scope scope
    return (.done, { host with weakHandles := host.weakHandles.insert into frame })
  | .upgrade handle into => do
    let frame ← host.weakHandle handle
    return host.upgrade frame into
  | .dropScope scope => return host.dropScope scope
  | .dropValue value => return host.dropValue value
  | .load source into => return host.load source into
  | .run program scope into => do
    let (base, program) ← host.program program
    let frame ← host.scope scope
    return host.run depth frame base program into
  | .evaluate scope source into => do
    let frame ← host.scope scope
    return host.evaluate depth frame source into
  | .inspect value => do
    let value ← host.value value
    return (.described (host.store.describe value), host)
  | .equal first second => do
    let first ← host.value first
    let second ← host.value second
    return (.flag (first.same second), host)
  | .makeFunction scope parameters body into => do
    let frame ← host.scope scope
    return host.makeFunction frame parameters body into
  | .capture value scope into => do
    let frame ← host.scope scope
    let closure ← asFunction (← host.value value)
    return host.capture closure frame into
  | .uncapture value into => do
    let closure ← asFunction (← host.value value)
    return host.describeAndKeep into (.function { closure with captured := [] })

/-- Take one step. A command that is refused changes nothing. -/
def step (host : Host) (depth : Nat) (command : Command) : Except Refusal Reply × Host :=
  match host.perform depth command with
  | .ok (reply, after) => (.ok reply, after)
  | .error refusal => (.error refusal, host)

end Host

end Monkey
