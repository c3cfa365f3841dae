/-
# Scopes as they are written down

Handles, frames inside frames and bindings that are exchanged in place can be told in another
way: by a record of what has been done. It notes on which frame each handle is, inside which
frame each frame was made, and what was bound where, one after the other. Nothing in it is ever
exchanged or released, and a name is looked up in it by going outwards from a frame and asking
on each for the latest thing that the name was bound to there.

A host that makes scopes and handles and binds names agrees with the record at every moment,
whatever had been done with it before, programs that were run included. So it does not matter
through which handle a name is bound, nor whether a scope inside was made before or after.
-/

import Mathlib
import Monkey.Proofs.Host.Layers

namespace Monkey

open Store

/-- The commands that make scopes and handles on them, and that bind names. -/
def Command.IsScoping : Command → Prop
  | .newScope _ => True
  | .childScope _ _ => True
  | .aliasScope _ _ => True
  | .define _ _ _ => True
  | _ => False

/-! ## The record -/

/-- A name was bound to a value on a frame. -/
structure Write where
  frame : FrameId
  name : String
  value : Value

/-- A record of scopes: the frame that each handle is on, the number of frames made, the frame
around each, what names stood for when the record was begun, and what has been bound since, the
latest first. -/
structure Outline where
  handles : Bindings FrameId
  made : Nat
  outer : FrameId → Option FrameId
  before : FrameId → String → Option Value
  writes : List Write

namespace Outline

/-- A record that begins now. -/
def ofHost (host : Host) : Outline where
  handles := host.scopes
  made := host.store.cells.size
  outer frame := (host.store.contents? frame).bind Contents.outer
  before frame name :=
    (host.store.contents? frame).bind fun contents => contents.bindings.find? name
  writes := []

/-- Another handle on a frame. -/
def addHandle (outline : Outline) (into : String) (frame : FrameId) : Outline :=
  { outline with handles := outline.handles.insert into frame }

/-- A frame is made inside another, or outside of all, and there is a handle on it. -/
def addFrame (outline : Outline) (around : Option FrameId) (into : String) : Outline :=
  { outline with
    handles := outline.handles.insert into ⟨outline.made⟩
    made := outline.made + 1
    outer := fun frame => if frame = ⟨outline.made⟩ then around else outline.outer frame }

/-- A name is bound on a frame. -/
def addWrite (outline : Outline) (frame : FrameId) (name : String) (value : Value) : Outline :=
  { outline with writes := ⟨frame, name, value⟩ :: outline.writes }

/-- What a command adds to the record. If a slot that it names is empty, it adds nothing. -/
def note (operand : Operand → Except Refusal Value) (outline : Outline) : Command → Outline
  | .newScope into => outline.addFrame none into
  | .childScope scope into =>
    match outline.handles.find? scope with
    | some frame => outline.addFrame (some frame) into
    | none => outline
  | .aliasScope scope into =>
    match outline.handles.find? scope with
    | some frame => outline.addHandle into frame
    | none => outline
  | .define scope name bound =>
    match operand bound, outline.handles.find? scope with
    | .ok value, some frame => outline.addWrite frame name value
    | _, _ => outline
  | _ => outline

/-- What several commands add, one after the other. -/
def noteAll (operand : Operand → Except Refusal Value) (outline : Outline)
    (commands : List Command) : Outline :=
  commands.foldl (note operand) outline

/-- The latest value that a name was bound to on a frame, through whichever handle. -/
def latest (outline : Outline) (frame : FrameId) (name : String) : Option Value :=
  match outline.writes.find? fun write => write.frame == frame && write.name == name with
  | some write => some write.value
  | none => outline.before frame name

/-- The frames from a frame outwards, the outermost last. -/
inductive Chain (outline : Outline) : FrameId → List FrameId → Prop
  | outermost {frame : FrameId} (isOutermost : outline.outer frame = none) :
    outline.Chain frame [frame]
  | inside {frame around : FrameId} {others : List FrameId}
    (isInside : outline.outer frame = some around) (areOthers : outline.Chain around others) :
    outline.Chain frame (frame :: others)

theorem latest_addWrite (outline : Outline) (frame other : FrameId) (name asked : String)
    (value : Value) :
    (outline.addWrite frame name value).latest other asked =
      if other = frame ∧ asked = name then some value else outline.latest other asked := by
  rw [latest, addWrite, List.find?_cons]
  by_cases isBound : other = frame ∧ asked = name
  · obtain ⟨rfl, rfl⟩ := isBound
    simp
  · have passed : (frame == other && name == asked) = false := by
      rw [Bool.eq_false_iff, Ne, Bool.and_eq_true, beq_iff_eq, beq_iff_eq]
      exact fun same => isBound ⟨same.1.symm, same.2.symm⟩
    rw [if_neg isBound]
    simp only [passed]
    rfl

/-- Where a frame lies has nothing to do with what is bound. -/
theorem chain_addWrite_iff {outline : Outline} {frame other : FrameId} {name : String}
    {value : Value} {chain : List FrameId} :
    (outline.addWrite frame name value).Chain other chain ↔ outline.Chain other chain := by
  constructor
  · intro isChain
    induction isChain with
    | outermost isOutermost => exact .outermost isOutermost
    | inside isInside _ ih => exact .inside isInside ih
  · intro isChain
    induction isChain with
    | outermost isOutermost => exact .outermost isOutermost
    | inside isInside _ ih => exact .inside isInside ih

theorem Chain.unique {outline : Outline} {frame : FrameId} {chain other : List FrameId}
    (isChain : outline.Chain frame chain) (isOther : outline.Chain frame other) :
    other = chain := by
  induction isChain generalizing other with
  | outermost isOutermost =>
      cases isOther with
      | outermost _ => rfl
      | inside isInside _ => cases isOutermost.symm.trans isInside
  | inside isInside _ ih =>
      cases isOther with
      | outermost isOutermost => cases isOutermost.symm.trans isInside
      | inside isOther areOthers =>
          cases isInside.symm.trans isOther
          rw [ih areOthers]

end Outline

/-! ## Agreement -/

/-- The record says of a host what there is to see: its handles, where its frames lie, and what
is bound on them. Of frames that have not been made it says nothing. -/
structure Outline.Describes (outline : Outline) (operand : Operand → Except Refusal Value)
    (host : Host) : Prop where
  balanced : host.Balanced []
  layered : host.store.Layered
  operands : ∀ bound, host.operand bound = operand bound
  handles : outline.handles = host.scopes
  made : outline.made = host.store.cells.size
  outer : ∀ {frame contents}, host.store.contents? frame = some contents →
    outline.outer frame = contents.outer
  bound : ∀ {frame contents}, host.store.contents? frame = some contents →
    ∀ name, outline.latest frame name = contents.bindings.find? name
  unmade : ∀ {frame : FrameId}, outline.made ≤ frame.index → ∀ name,
    outline.latest frame name = none

theorem Outline.describes_ofHost {host : Host} (reached : host.Reached) :
    (ofHost host).Describes host.operand host where
  balanced := reached.balanced
  layered := reached.layered
  operands _ := rfl
  handles := rfl
  made := rfl
  outer isContents := by simp [ofHost, isContents]
  bound isContents name := by simp [ofHost, latest, isContents]
  unmade {frame} isLater name := by
    have gone : host.store.contents? frame = none := by
      refine Option.eq_none_iff_forall_ne_some.mpr fun contents isContents => ?_
      exact absurd (index_lt_of_isLive (isLive_of_contents? isContents)) (Nat.not_lt.mpr isLater)
    simp [ofHost, latest, gone]

/-- What a command may bring along is a matter of the values in the slots. -/
theorem Host.operand_eq_of_values {host other : Host} (same : other.values = host.values)
    (bound : Operand) : other.operand bound = host.operand bound := by
  cases bound with
  | slot name => rw [Host.operand, Host.operand, Host.value, Host.value, same]
  | _ => rfl

namespace Outline.Describes

variable {outline : Outline} {operand : Operand → Except Refusal Value} {host : Host}

/-- Another handle on a frame that is there. -/
theorem addHandle (describes : outline.Describes operand host) {frame : FrameId}
    (live : host.store.isLive frame = true) (into : String) :
    (outline.addHandle into frame).Describes operand
      ((host.retain [frame]).keepScope into frame) := by
  have fades := host.fadesTo_aliasScope frame into
  exact {
    balanced := describes.balanced.aliasScope live into
    layered := describes.layered.fades fades
    operands := fun bound => (Host.operand_eq_of_values rfl bound).trans (describes.operands bound)
    handles := congrArg (Bindings.insert · into frame) describes.handles
    made := describes.made.trans fades.size.symm
    outer := fun isContents => describes.outer (fades.contents isContents)
    bound := fun isContents => describes.bound (fades.contents isContents)
    unmade := describes.unmade }

/-- A new frame, with nothing bound on it. -/
theorem addFrame (describes : outline.Describes operand host) {around : Option FrameId}
    (isHeld : ∀ outer ∈ around, .scope outer ∈ host.held) (into : String) :
    (outline.addFrame around into).Describes operand (host.newFrame around into) := by
  have fades : (host.store.alloc around).2.FadesTo (host.newFrame around into).store := .release _ _
  have fresh : (⟨outline.made⟩ : FrameId) = (host.store.alloc around).1 :=
    congrArg FrameId.mk describes.made
  have live : ∀ outer ∈ around, host.store.isLive outer = true := fun outer isAround =>
    isLive_of_mem_held describes.balanced (isHeld outer isAround) List.mem_cons_self
  refine ⟨describes.balanced.newFrame isHeld into, describes.layered.newFrame live into, ?_, ?_, ?_,
    fun isContents => ?_, fun isContents => ?_, ?_⟩
  · exact fun bound => (Host.operand_eq_of_values rfl bound).trans (describes.operands bound)
  · rw [Outline.addFrame, fresh, describes.handles]
    rfl
  · rw [fades.size, size_alloc, ← describes.made]
    rfl
  · rw [Outline.addFrame, fresh]
    rcases contents?_of_alloc (fades.contents isContents) with ⟨rfl, rfl⟩ | isEarlier
    · exact if_pos rfl
    · have older := index_lt_of_isLive (isLive_of_contents? isEarlier)
      refine (if_neg ?_).trans (describes.outer isEarlier)
      rintro rfl
      exact Nat.lt_irrefl _ older
  · rcases contents?_of_alloc (fades.contents isContents) with ⟨rfl, rfl⟩ | isEarlier
    · exact describes.unmade (Nat.le_of_eq describes.made)
    · exact describes.bound isEarlier
  · exact fun isLater => describes.unmade (Nat.le_of_succ_le isLater)

/-- A name is bound on a frame, and nothing else changes on those that are left. -/
theorem addWrite (describes : outline.Describes operand host) {frame : FrameId}
    (inScope : .scope frame ∈ host.held) {value : Value}
    (captured : ∀ id ∈ value.captured, host.store.isLive id = true) (name : String) :
    (outline.addWrite frame name value).Describes operand (host.define frame name value) := by
  have live := isLive_of_mem_held describes.balanced inScope List.mem_cons_self
  have retained := FadesTo.retain host.store value.captured
  rw [← isLive_retain host.store value.captured] at live
  have size : (host.define frame name value).store.cells.size = host.store.cells.size :=
    (size_define _ frame name value).trans retained.size
  refine ⟨describes.balanced.define inScope captured name,
    (describes.layered.fades retained).define live name value,
    fun bound => (Host.operand_eq_of_values rfl bound).trans (describes.operands bound),
    describes.handles, describes.made.trans size.symm, fun isContents => ?_,
    fun {other contents} isContents asked => ?_, fun {other} isLater asked => ?_⟩
  · obtain ⟨earlier, isEarlier, sameOuter, -⟩ := contents?_of_define live isContents
    exact (describes.outer (retained.contents isEarlier)).trans sameOuter
  · obtain ⟨before, isBefore⟩ := exists_frame_of_isLive live
    have isBefore := contents?_of_frame? isBefore
    have changed := (contents?_define isBefore name value
      (isLive_of_contents? isContents)).symm.trans isContents
    rw [latest_addWrite]
    by_cases isOwn : other = frame
    · subst isOwn
      rw [if_pos rfl] at changed
      cases changed
      rw [describes.bound (retained.contents isBefore) asked]
      by_cases isName : asked = name
      · subst isName
        simp
      · simp [isName]
    · rw [if_neg isOwn] at changed
      rw [if_neg fun same => isOwn same.1]
      exact describes.bound (retained.contents changed) asked
  · have older := index_lt_of_isLive live
    rw [retained.size, ← describes.made] at older
    rw [latest_addWrite, if_neg, describes.unmade isLater]
    rintro ⟨rfl, -⟩
    exact absurd older (Nat.not_lt.mpr isLater)

/-! ## Steps and runs -/

end Outline.Describes

namespace Host

variable {host : Host} {depth : Nat} {command : Command}

theorem step_of_performed {answer : Reply × Host}
    (performed : host.perform depth command = .ok answer) :
    (host.step depth command).2 = answer.2 := by
  rw [step, performed]

theorem step_of_refused {refusal : Refusal} (refused : host.perform depth command = .error refusal) :
    (host.step depth command).2 = host := by
  rw [step, refused]

theorem scope_of_find? {name : String} {frame : FrameId}
    (isFound : host.scopes.find? name = some frame) : host.scope name = .ok frame := by
  rw [scope, filled, isFound]

theorem scope_of_empty {name : String} (isEmpty : host.scopes.find? name = none) :
    host.scope name = .error (.noSuchSlot name) := by
  rw [scope, filled, isEmpty]

/-- What a value has captured that a command brings along is live. -/
theorem isLive_of_operand (balanced : host.Balanced []) {bound : Operand} {value : Value}
    (isOperand : host.operand bound = .ok value) :
    ∀ id ∈ value.captured, host.store.isLive id = true := by
  intro id isCaptured
  cases bound with
  | slot name => exact isLive_of_mem_held balanced (mem_held_of_value isOperand) isCaptured
  | _ =>
      cases isOperand
      cases isCaptured

/-- A name is bound if there is a value for it and a scope. -/
theorem perform_define {scope name : String} {bound : Operand} {value : Value}
    (isOperand : host.operand bound = .ok value) :
    host.perform depth (.define scope name bound) = (do
      let frame ← host.scope scope
      return (.done, host.define frame name value)) := by
  rw [perform, isOperand]
  rfl

theorem step_define {scope name : String} {bound : Operand} {frame : FrameId} {value : Value}
    (isOperand : host.operand bound = .ok value) (isScope : host.scopes.find? scope = some frame) :
    (host.step depth (.define scope name bound)).2 = host.define frame name value := by
  have performed : host.perform depth (.define scope name bound) =
      .ok (.done, host.define frame name value) := by
    rw [perform_define isOperand, scope_of_find? isScope]
    rfl
  exact step_of_performed performed

end Host

namespace Outline.Describes

variable {outline : Outline} {operand : Operand → Except Refusal Value} {host : Host}

theorem step (describes : outline.Describes operand host) {command : Command}
    (scoping : command.IsScoping) (depth : Nat) :
    (outline.note operand command).Describes operand (host.step depth command).2 := by
  have held {name : String} {frame : FrameId} (isFound : host.scopes.find? name = some frame) :=
    Host.mem_held_of_scope (Host.scope_of_find? isFound)
  cases command with
  | newScope into =>
      rw [note, Host.step_of_performed rfl]
      exact describes.addFrame (by simp) into
  | childScope scope into =>
      rw [note, describes.handles]
      cases isFound : host.scopes.find? scope with
      | none =>
          rw [Host.step_of_refused (by rw [Host.perform, Host.scope_of_empty isFound]; rfl)]
          exact describes
      | some frame =>
          rw [Host.step_of_performed (by rw [Host.perform, Host.scope_of_find? isFound]; rfl)]
          refine describes.addFrame (fun outer isAround => ?_) into
          cases isAround
          exact held isFound
  | aliasScope scope into =>
      rw [note, describes.handles]
      cases isFound : host.scopes.find? scope with
      | none =>
          rw [Host.step_of_refused (by rw [Host.perform, Host.scope_of_empty isFound]; rfl)]
          exact describes
      | some frame =>
          rw [Host.step_of_performed (by rw [Host.perform, Host.scope_of_find? isFound]; rfl)]
          exact describes.addHandle
            (isLive_of_mem_held describes.balanced (held isFound) List.mem_cons_self) into
  | define scope name bound =>
      rw [note, describes.handles, ← describes.operands]
      cases isOperand : host.operand bound with
      | error refusal =>
          rw [Host.step_of_refused (by rw [Host.perform, isOperand]; rfl)]
          exact describes
      | ok value =>
          cases isFound : host.scopes.find? scope with
          | none =>
              have refused : host.perform depth (.define scope name bound) =
                  .error (.noSuchSlot scope) := by
                rw [Host.perform_define isOperand, Host.scope_of_empty isFound]
                rfl
              rw [Host.step_of_refused refused]
              exact describes
          | some frame =>
              rw [Host.step_define isOperand isFound]
              exact describes.addWrite (held isFound)
                (Host.isLive_of_operand describes.balanced isOperand) name
  | _ => exact scoping.elim

theorem stepAll (describes : outline.Describes operand host) {commands : List Command}
    (scoping : ∀ command ∈ commands, command.IsScoping) (depth : Nat) :
    (outline.noteAll operand commands).Describes operand (host.stepAll depth commands) := by
  induction commands generalizing outline host with
  | nil => exact describes
  | cons command commands ih =>
      obtain ⟨isFirst, areOthers⟩ := List.forall_mem_cons.mp scoping
      exact ih (describes.step isFirst depth) areOthers

/-! ## Looking names up -/

/-- From every frame the record leads outwards over frames that are there, and a name stands for
the latest thing that it was bound to on the nearest of them. -/
theorem exists_chain (describes : outline.Describes operand host) {frame : FrameId}
    (live : host.store.isLive frame = true) :
    ∃ chain, outline.Chain frame chain ∧ (∀ member ∈ chain, host.store.isLive member = true) ∧
      ∀ name, host.store.resolve frame name = chain.findSome? (outline.latest · name) := by
  induction isIndex : frame.index using Nat.strongRecOn generalizing frame with
  | ind index ih =>
      obtain ⟨here, isHere⟩ := exists_frame_of_isLive live
      have isContents := contents?_of_frame? isHere
      have found := describes.layered.resolve_eq isContents
      have isOuter := describes.outer isContents
      cases isAround : here.contents.outer with
      | none =>
          refine ⟨[frame], .outermost (isOuter.trans isAround), by simpa using live, fun name => ?_⟩
          rw [found, isAround, List.findSome?_cons, describes.bound isContents]
          cases here.contents.bindings.find? name <;> rfl
      | some around =>
          have inside : host.store.Inside frame around := ⟨_, isContents, isAround⟩
          have liveAround := Accounted.isLive_of_inside describes.balanced inside
          obtain ⟨others, areOthers, areLive, foundAround⟩ :=
            ih around.index (isIndex ▸ describes.layered inside) liveAround rfl
          refine ⟨frame :: others, .inside (isOuter.trans isAround) areOthers,
            List.forall_mem_cons.mpr ⟨live, areLive⟩, fun name => ?_⟩
          rw [found, isAround, List.findSome?_cons, describes.bound isContents]
          cases here.contents.bindings.find? name with
          | none => exact foundAround name
          | some value => rfl

end Outline.Describes

/-- Two searches that differ at one place alone find different things only if both get as far as
that place. -/
theorem exists_split_of_findSome?_ne {α β : Type} [DecidableEq α] {members : List α} {place : α}
    {first second : α → Option β} (same : ∀ member, member ≠ place → first member = second member)
    (differ : members.findSome? first ≠ members.findSome? second) :
    ∃ nearer farther, members = nearer ++ place :: farther ∧
      ∀ member ∈ nearer, second member = none := by
  induction members with
  | nil => exact absurd rfl differ
  | cons member members ih =>
      by_cases isPlace : member = place
      · exact ⟨[], members, by rw [isPlace, List.nil_append], by simp⟩
      · rw [List.findSome?_cons, List.findSome?_cons, same member isPlace] at differ
        cases isNone : second member with
        | some found =>
            rw [isNone] at differ
            exact absurd rfl differ
        | none =>
            rw [isNone] at differ
            obtain ⟨nearer, farther, rfl, areNone⟩ := ih differ
            exact ⟨member :: nearer, farther, rfl, List.forall_mem_cons.mpr ⟨isNone, areNone⟩⟩

/-- A host that makes scopes and handles and binds names agrees with the record of this. Its frames
lie as they were made, each in an older one. A name stands for the latest thing that it was bound
to, through whichever handle, on the nearest frame of the chain on which it was bound at all, and
for nothing if there is no such frame. Binding a name changes what names stand for only through
handles whose chain comes to that frame before any other on which this name is bound. -/
theorem Host.Reached.resolve_eq_latest {host : Host} (reached : host.Reached) (depth : Nat)
    {commands : List Command} (scoping : ∀ command ∈ commands, command.IsScoping) :
    let after := host.stepAll depth commands
    let outline := (Outline.ofHost host).noteAll host.operand commands
    after.scopes = outline.handles ∧
    (∀ slot frame, after.scopes.find? slot = some frame → after.store.isLive frame = true) ∧
    (∀ inner outer, after.store.Inside inner outer →
      outline.outer inner = some outer ∧ outer.index < inner.index) ∧
    (∀ frame, after.store.isLive frame = true →
      ∃ chain, outline.Chain frame chain ∧ (∀ member ∈ chain, after.store.isLive member = true) ∧
        ∀ name, after.store.resolve frame name = chain.findSome? (outline.latest · name)) ∧
    ∀ scope name bound frame value, after.scopes.find? scope = some frame →
      after.operand bound = .ok value →
      ∀ slot other asked, after.scopes.find? slot = some other →
        (after.step depth (.define scope name bound)).2.store.resolve other asked ≠
          after.store.resolve other asked →
        asked = name ∧ ∃ nearer farther, outline.Chain other (nearer ++ frame :: farther) ∧
          ∀ member ∈ nearer, outline.latest member name = none := by
  intro after outline
  have describes : outline.Describes host.operand after :=
    (Outline.describes_ofHost reached).stepAll scoping depth
  have live {slot : String} {frame : FrameId} (isFound : after.scopes.find? slot = some frame) :
      after.store.isLive frame = true :=
    isLive_of_scope describes.balanced (scope_of_find? isFound)
  refine ⟨describes.handles.symm, fun slot frame => live, ?_, fun frame => describes.exists_chain, ?_⟩
  · rintro inner outer ⟨contents, isContents, isOuter⟩
    exact ⟨(describes.outer isContents).trans isOuter, describes.layered ⟨_, isContents, isOuter⟩⟩
  · intro scope name bound frame value isScope isOperand slot other asked isSlot differ
    have later := describes.addWrite (mem_held_of_scope (scope_of_find? isScope))
      (isLive_of_operand describes.balanced isOperand) name
    rw [step_define isOperand isScope] at differ
    have isSlotLater : (after.define frame name value).scope slot = .ok other := scope_of_find? isSlot
    have livesOn := isLive_of_scope later.balanced isSlotLater
    obtain ⟨chain, isChain, -, found⟩ := describes.exists_chain (live isSlot)
    obtain ⟨_, isLater, -, foundLater⟩ := later.exists_chain livesOn
    obtain rfl := isChain.unique (Outline.chain_addWrite_iff.mp isLater)
    rw [found, foundLater] at differ
    simp only [Outline.latest_addWrite] at differ
    by_cases isName : asked = name
    · subst isName
      refine ⟨rfl, ?_⟩
      obtain ⟨nearer, farther, rfl, areNone⟩ :=
        exists_split_of_findSome?_ne (fun member different => if_neg fun same => different same.1) differ
      exact ⟨nearer, farther, isChain, areNone⟩
    · simp only [isName, and_false, if_false] at differ
      exact absurd rfl differ

/-- A name that is bound through a second handle on the outer scope, after the inner scope has been
made, is seen from the inner scope, and so is its next value. -/
theorem Host.resolve_eq_latest_of_alias :
    let commands : List Command := [.newScope "outer", .childScope "outer" "inner",
      .aliasScope "outer" "again", .define "again" "x" (.int 1)]
    let after := start.stepAll 0 commands
    let outline := (Outline.ofHost start).noteAll start.operand commands
    after.store.resolve ⟨1⟩ "x" = some (.int 1) ∧
      ∃ nearer farther, outline.Chain ⟨1⟩ (nearer ++ ⟨0⟩ :: farther) ∧
        ∀ member ∈ nearer, outline.latest member "x" = none := by
  intro commands after outline
  have scoping : ∀ command ∈ commands, command.IsScoping := by
    simp [commands, Command.IsScoping]
  obtain ⟨handles, areLive, -, chains, changes⟩ := Reached.start.resolve_eq_latest 0 scoping
  have isOuter : after.scopes.find? "again" = some ⟨0⟩ := by
    rw [handles]
    rfl
  have isInner : after.scopes.find? "inner" = some ⟨1⟩ := by
    rw [handles]
    rfl
  have isSeen : after.store.resolve ⟨1⟩ "x" = some (.int 1) := by
    obtain ⟨chain, isChain, -, found⟩ := chains ⟨1⟩ (areLive "inner" ⟨1⟩ isInner)
    have isKnown : outline.Chain ⟨1⟩ [⟨1⟩, ⟨0⟩] := .inside rfl (.outermost rfl)
    rw [found, isKnown.unique isChain]
    rfl
  refine ⟨isSeen, ?_⟩
  have isNext : (after.step 0 (.define "again" "x" (.int 2))).2.store.resolve ⟨1⟩ "x" =
      some (.int 2) := by cbv
  have differ : (after.step 0 (.define "again" "x" (.int 2))).2.store.resolve ⟨1⟩ "x" ≠
      after.store.resolve ⟨1⟩ "x" := by
    rw [isNext, isSeen]
    decide
  exact (changes "again" "x" (.int 2) ⟨0⟩ _ isOuter rfl "inner" ⟨1⟩ "x" isInner differ).2

end Monkey
