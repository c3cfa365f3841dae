/-
# The lifetimes of frames

A host holds the scopes and the values in its slots, and nothing else holds frames from
outside the store. Each command hands holds over from slot to slot, to the store and back,
so that the accounts are right between any two commands. Whether a frame can still be had
from a weak handle is therefore a question about links: it can if something in a slot leads
to the frame, or a circle of links does, and in no other case.
-/

import Mathlib
import Monkey.Host.Basic
import Monkey.Proofs.Eval.Leftovers
import Monkey.Proofs.Store.Reachability

namespace Monkey

/-- Holds are given up together. -/
theorem Store.Balanced.giveUp {store : Store} {held given : List Hold}
    (balanced : store.Balanced (given ++ held)) :
    (store.release (Hold.allFrames given)).Balanced held := by
  refine Accounted.release ?_
  rw [Hold.allFrames, Hold.allFrames, ← List.flatMap_append]
  exact balanced

namespace Host

open Store

/-- What a host holds: the scopes and the values in its slots. A weak handle holds nothing. -/
def held (host : Host) : List Hold :=
  host.scopes.items.map Hold.scope ++ host.values.items.map Hold.value

theorem mem_held_of_scope {host : Host} {name : String} {frame : FrameId}
    (isScope : host.scope name = .ok frame) : .scope frame ∈ host.held := by
  unfold scope filled at isScope
  split at isScope
  · next isFound =>
      cases isScope
      exact List.mem_append_left _ (List.mem_map_of_mem (Bindings.mem_items_of_find? isFound))
  · cases isScope

theorem mem_held_of_value {host : Host} {name : String} {value : Value}
    (isValue : host.value name = .ok value) : .value value ∈ host.held := by
  unfold Host.value filled at isValue
  split at isValue
  · next isFound =>
      cases isValue
      exact List.mem_append_right _ (List.mem_map_of_mem (Bindings.mem_items_of_find? isFound))
  · cases isValue

/-- The accounts of the store are right, given what is in the slots and further holds that are
in no slot yet. -/
def Balanced (host : Host) (further : List Hold) : Prop := host.store.Balanced (further ++ host.held)

namespace Balanced

variable {host : Host}

/-! ## Slots filled and emptied -/

theorem keepScope {frame : FrameId} (balanced : host.Balanced [.scope frame]) (into : String) :
    (host.keepScope into frame).Balanced [] := by
  have exchanged := ((host.scopes.insert_perm into frame).map Hold.scope).append_right
    (host.values.items.map Hold.value)
  rw [List.map_append, List.append_assoc] at exchanged
  have givenUp := Store.Balanced.giveUp (balanced_invariant.perm balanced exchanged.symm)
  have frames : Hold.allFrames ((host.scopes.find? into).toList.map Hold.scope) =
      (host.scopes.find? into).toList := by
    cases host.scopes.find? into <;> rfl
  rw [frames] at givenUp
  exact givenUp

theorem keepValue {value : Value} (balanced : host.Balanced [.value value]) (into : String) :
    (host.keepValue into value).Balanced [] := by
  have exchanged := ((host.values.insert_perm into value).map Hold.value).append_left
    (host.scopes.items.map Hold.scope)
  rw [List.map_append] at exchanged
  have latest : (.value value :: host.held).Perm
      ((host.values.find? into).toList.map Hold.value ++ (host.scopes.items.map Hold.scope ++
        (host.values.insert into value).items.map Hold.value)) :=
    (List.perm_middle.symm.trans exchanged.symm).trans (List.perm_append_comm_assoc _ _ _)
  have givenUp := Store.Balanced.giveUp (balanced_invariant.perm balanced latest)
  have frames : Hold.allFrames ((host.values.find? into).toList.map Hold.value) =
      (host.values.find? into).elim [] Value.captured := by
    cases host.values.find? into <;> simp [Hold.allFrames, Hold.frames]
  rw [frames] at givenUp
  exact givenUp

theorem keepOrGiveUp {value : Value} (balanced : host.Balanced [.value value])
    (into : Option String) : (host.keepOrGiveUp into value).Balanced [] := by
  cases into with
  | none => exact balanced_invariant.drop balanced
  | some into => exact balanced.keepValue into

theorem dropScope (balanced : host.Balanced []) (name : String) :
    (host.dropScope name).2.Balanced [] := by
  unfold Host.dropScope
  cases isFound : host.scopes.find? name with
  | none => exact balanced
  | some frame =>
      have exchanged := ((host.scopes.erase_perm name).map Hold.scope).append_right
        (host.values.items.map Hold.value)
      rw [isFound] at exchanged
      exact balanced_invariant.drop (balanced_invariant.perm balanced exchanged.symm)

theorem dropValue (balanced : host.Balanced []) (name : String) :
    (host.dropValue name).2.Balanced [] := by
  unfold Host.dropValue
  cases isFound : host.values.find? name with
  | none => exact balanced
  | some value =>
      have exchanged := ((host.values.erase_perm name).map Hold.value).append_left
        (host.scopes.items.map Hold.scope)
      rw [isFound] at exchanged
      have latest := exchanged.symm.trans List.perm_middle
      exact balanced_invariant.drop (balanced_invariant.perm balanced latest)

/-! ## Commands -/

theorem newFrame (balanced : host.Balanced []) {outer : Option FrameId}
    (isHeld : ∀ around ∈ outer, .scope around ∈ host.held) (into : String) :
    (host.newFrame outer into).Balanced [] := by
  have allocated := Accounted.alloc balanced fun around isAround =>
    isLive_of_mem_held balanced (isHeld around isAround) List.mem_cons_self
  have further : Host.Balanced { host with store := (host.store.alloc outer).2 }
      [.scope (host.store.alloc outer).1] := allocated
  exact further.keepScope into

/-- Another hold on a live frame can be kept. -/
theorem aliasScope (balanced : host.Balanced []) {frame : FrameId}
    (live : host.store.isLive frame = true) (into : String) :
    ((host.retain [frame]).keepScope into frame).Balanced [] := by
  have retained := Accounted.retain balanced fun id isFrame =>
    List.mem_singleton.mp isFrame ▸ live
  have further : (host.retain [frame]).Balanced [.scope frame] := retained
  exact further.keepScope into

/-- Another hold on a value can be kept where all is live that it has captured. -/
theorem keepCopy (balanced : host.Balanced []) {value : Value}
    (live : ∀ id ∈ value.captured, host.store.isLive id = true) (into : String) :
    ((host.retain value.captured).keepValue into value).Balanced [] := by
  have retained := Accounted.retain balanced live
  have further : (host.retain value.captured).Balanced [.value value] := retained
  exact further.keepValue into

theorem keepPlain (balanced : host.Balanced []) {value : Value} (nothing : value.captured = [])
    (into : String) : (host.keepValue into value).Balanced [] := by
  have further : host.Balanced [.value value] := by
    unfold Host.Balanced Store.Balanced Hold.allFrames at balanced ⊢
    rw [List.cons_append, List.flatMap_cons, Hold.frames, nothing]
    exact balanced
  exact further.keepValue into

theorem define (balanced : host.Balanced []) {frame : FrameId} (inScope : .scope frame ∈ host.held)
    {value : Value} (live : ∀ id ∈ value.captured, host.store.isLive id = true) (name : String) :
    (host.define frame name value).Balanced [] := by
  have retained := Accounted.retain balanced live
  have further : (host.store.retain value.captured).Balanced (.value value :: host.held) := retained
  exact balanced_invariant.define further inScope name

theorem resolve (balanced : host.Balanced []) {frame : FrameId}
    (name : String) (into : Option String) :
    (host.resolve frame name into).2.Balanced [] := by
  unfold Host.resolve
  split
  · exact balanced
  · exact balanced
  · next value into isFound =>
      obtain ⟨_, _, -, isContents, isBound⟩ := exists_onChain_of_resolve isFound
      exact balanced.keepCopy (fun id => Accounted.isLive_of_bound balanced isContents isBound) into

theorem upgrade (balanced : host.Balanced []) (frame : FrameId) (into : Option String) :
    (host.upgrade frame into).2.Balanced [] := by
  unfold Host.upgrade
  split
  · next live => exact balanced.aliasScope live _
  · exact balanced

theorem capture (balanced : host.Balanced []) {closure : Closure} {frame : FrameId}
    (isHeld : .value (.function closure) ∈ host.held) (inScope : .scope frame ∈ host.held)
    (into : String) : (host.capture closure frame into).2.Balanced [] := by
  have live : ∀ id ∈ (Value.function (closure.returnedFrom frame)).captured,
      host.store.isLive id = true := by
    intro id isCaptured
    rcases List.mem_append.mp isCaptured with isCaptured | isFrame
    · exact isLive_of_mem_held balanced isHeld isCaptured
    · exact isLive_of_mem_held balanced inScope isFrame
  exact balanced.keepCopy live into

theorem withProgram (balanced : host.Balanced []) (source : String)
    {use : Program → Reply × Host} (used : ∀ program, (use program).2.Balanced []) :
    (host.withProgram source use).2.Balanced [] := by
  unfold Host.withProgram
  split
  · exact balanced
  · next program _ => exact used program

/-- Whatever a run ends with is kept or given up. -/
theorem run (balanced : host.Balanced []) {frame : FrameId} (inScope : .scope frame ∈ host.held)
    (depth base : Nat) (program : Program) (into : Option String) :
    (host.run depth frame base program into).2.Balanced [] := by
  have ended := (Program.eval_transfers balanced_invariant depth inScope base program host.store
    balanced).outcome
  unfold Host.run
  generalize (program.eval depth frame base).outcome host.store = reached at ended ⊢
  obtain ⟨outcome, after⟩ := reached
  have further : Host.Balanced { host with store := after } outcome.holds := ended
  cases outcome with
  | value result => exact further.keepOrGiveUp into
  | returned result => exact further.keepOrGiveUp into
  | failed fault => exact further
  | tooDeep => exact further

end Balanced

/-- A sequence of checks that succeeds has passed the first of them. -/
theorem exists_of_bind {ε α β : Type} {check : Except ε α} {next : α → Except ε β} {result : β}
    (succeeds : check >>= next = .ok result) :
    ∃ passed, check = .ok passed ∧ next passed = .ok result := by
  cases check with
  | ok passed => exact ⟨passed, rfl, succeeds⟩
  | error refusal => cases succeeds

/-- Every command that is carried out leaves the accounts right. -/
theorem Balanced.perform {host : Host} {depth : Nat} {command : Command} {answer : Reply × Host}
    (balanced : host.Balanced []) (performed : host.perform depth command = .ok answer) :
    answer.2.Balanced [] := by
  cases command with
  | newScope into =>
      cases performed
      exact balanced.newFrame (by simp) into
  | childScope scope into =>
      obtain ⟨frame, isScope, rest⟩ := exists_of_bind performed
      cases rest
      refine balanced.newFrame (fun around isAround => ?_) into
      cases isAround
      exact mem_held_of_scope isScope
  | aliasScope scope into =>
      obtain ⟨frame, isScope, rest⟩ := exists_of_bind performed
      cases rest
      exact balanced.aliasScope
        (isLive_of_mem_held balanced (mem_held_of_scope isScope) List.mem_cons_self) into
  | define scope name operand =>
      obtain ⟨value, isOperand, rest⟩ := exists_of_bind performed
      obtain ⟨frame, isScope, rest⟩ := exists_of_bind rest
      cases rest
      refine balanced.define (mem_held_of_scope isScope) (fun id isCaptured => ?_) name
      cases operand with
      | slot slot =>
          exact isLive_of_mem_held balanced (mem_held_of_value isOperand) isCaptured
      | _ =>
          cases isOperand
          cases isCaptured
  | resolve scope name into =>
      obtain ⟨frame, -, rest⟩ := exists_of_bind performed
      cases rest
      exact balanced.resolve name into
  | sameScope first second =>
      obtain ⟨_, -, rest⟩ := exists_of_bind performed
      obtain ⟨_, -, rest⟩ := exists_of_bind rest
      cases rest
      exact balanced
  | downgrade scope into =>
      obtain ⟨_, -, rest⟩ := exists_of_bind performed
      cases rest
      exact balanced
  | upgrade handle into =>
      obtain ⟨frame, -, rest⟩ := exists_of_bind performed
      cases rest
      exact balanced.upgrade frame into
  | dropScope scope =>
      cases performed
      exact balanced.dropScope scope
  | dropValue value =>
      cases performed
      exact balanced.dropValue value
  | load source into =>
      cases performed
      exact balanced.withProgram source fun _ => balanced
  | run program scope into =>
      obtain ⟨⟨base, program⟩, -, rest⟩ := exists_of_bind performed
      obtain ⟨frame, isScope, rest⟩ := exists_of_bind rest
      cases rest
      exact balanced.run (mem_held_of_scope isScope) depth base program into
  | evaluate scope source into =>
      obtain ⟨frame, isScope, rest⟩ := exists_of_bind performed
      cases rest
      refine balanced.withProgram source fun program => ?_
      have reserved : (host.reserve program.length).2.Balanced [] := balanced
      exact reserved.run (mem_held_of_scope isScope) depth host.loaded program into
  | inspect value =>
      obtain ⟨_, -, rest⟩ := exists_of_bind performed
      cases rest
      exact balanced
  | equal first second =>
      obtain ⟨_, -, rest⟩ := exists_of_bind performed
      obtain ⟨_, -, rest⟩ := exists_of_bind rest
      cases rest
      exact balanced
  | makeFunction scope parameters body into =>
      obtain ⟨frame, isScope, rest⟩ := exists_of_bind performed
      cases rest
      refine balanced.withProgram body fun body => ?_
      have reserved : (host.reserve 1).2.Balanced [] := balanced
      exact reserved.keepPlain rfl into
  | capture value scope into =>
      obtain ⟨frame, isScope, rest⟩ := exists_of_bind performed
      obtain ⟨item, isValue, rest⟩ := exists_of_bind rest
      obtain ⟨closure, isFunction, rest⟩ := exists_of_bind rest
      cases rest
      have isItem : item = .function closure := by
        cases item <;> cases isFunction
        rfl
      exact balanced.capture (isItem ▸ mem_held_of_value isValue) (mem_held_of_scope isScope) into
  | uncapture value into =>
      obtain ⟨item, -, rest⟩ := exists_of_bind performed
      obtain ⟨closure, -, rest⟩ := exists_of_bind rest
      cases rest
      exact balanced.keepPlain rfl into

theorem Balanced.step {host : Host} (balanced : host.Balanced []) (depth : Nat)
    (command : Command) : (host.step depth command).2.Balanced [] := by
  unfold Host.step
  split
  · next performed => exact balanced.perform performed
  · exact balanced

/-- The hosts that come about by commands, whatever is granted to the runs among them. -/
inductive Reached : Host → Prop
  | start : Reached start
  | step {host : Host} (earlier : Reached host) (depth : Nat) (command : Command) :
    Reached (host.step depth command).2

theorem Reached.balanced {host : Host} (reached : host.Reached) : host.Balanced [] := by
  induction reached with
  | start => exact Store.Built.start.balanced
  | step _ depth command ih => exact ih.step depth command

/-- A host after several commands. -/
def stepAll (host : Host) (depth : Nat) (commands : List Command) : Host :=
  commands.foldl (fun host command => (host.step depth command).2) host

theorem Reached.stepAll {host : Host} (reached : host.Reached) (depth : Nat)
    (commands : List Command) : (host.stepAll depth commands).Reached := by
  induction commands generalizing host with
  | nil => exact reached
  | cons command commands ih => exact ih (reached.step depth command)

/-- A weak handle tells whether its scope is live. -/
theorem upgrade_answer {host : Host} {handle : String} {id : FrameId}
    (isHandle : host.weakHandles.find? handle = some id) (depth : Nat) (into : Option String) :
    (host.step depth (.upgrade handle into)).1 = .ok (.flag (host.store.isLive id)) := by
  have isFilled : host.weakHandle handle = .ok id := by
    rw [weakHandle, filled, isHandle]
  have performed : host.perform depth (.upgrade handle into) = .ok (host.upgrade id into) := by
    rw [perform, isFilled]
    rfl
  rw [step, performed]
  show Except.ok (host.upgrade id into).1 = _
  unfold upgrade
  split
  · next live => rw [live]
  · rfl

/-- What a run ends with is kept or given up, and either leaves alive only what was. -/
theorem isLive_of_isLive_run {host : Host} {depth base : Nat} {env id : FrameId}
    {program : Program} {into : Option String}
    (live : (host.run depth env base program into).2.store.isLive id = true) :
    ((program.eval depth env base).outcome host.store).2.isLive id = true := by
  unfold run at live
  generalize (program.eval depth env base).outcome host.store = reached at live ⊢
  obtain ⟨outcome, after⟩ := reached
  have kept {value : Value} (live : (keepOrGiveUp { host with store := after } into value).store.isLive
      id = true) : after.isLive id = true := by
    cases into with
    | none => exact isLive_of_isLive_release live
    | some into => exact isLive_of_isLive_release live
  cases outcome with
  | value result => exact kept live
  | returned result => exact kept live
  | failed fault => exact live
  | tooDeep => exact live

/-- The description of a function that is held tells whether its home is live. -/
theorem inspect_answer {host : Host} {slot : String} {closure : Closure}
    (isFunction : host.values.find? slot = some (.function closure)) (depth : Nat) :
    (host.step depth (.inspect slot)).1 =
      .ok (.described (host.store.describe (.function closure))) := by
  have isFilled : host.value slot = .ok (.function closure) := by
    rw [Host.value, filled, isFunction]
  have performed : host.perform depth (.inspect slot) =
      .ok (.described (host.store.describe (.function closure)), host) := by
    rw [perform, isFilled]
    rfl
  rw [step, performed]

/-- Between any two commands a frame is live, whichever it is, exactly if something in a slot leads
to it, or a circle of links does. A weak handle and the home of a function tell the same. Without
circles it is what the slots lead to. A run in which no call returns a function leaves none of its
frames behind, whichever way it ends. -/
theorem Reached.lifetimes {host : Host} (reached : host.Reached) :
    (∀ id, host.store.isLive id = true ↔ host.store.Kept (Hold.allFrames host.held) id) ∧
    (∀ depth handle into id, host.weakHandles.find? handle = some id →
      ((host.step depth (.upgrade handle into)).1 = .ok (.flag true) ↔
        host.store.Kept (Hold.allFrames host.held) id)) ∧
    (∀ depth slot closure, host.values.find? slot = some (.function closure) →
      ∃ description told, (host.step depth (.inspect slot)).1 = .ok (.described description) ∧
        description.closure = some told ∧
        (told.homeIsLive = true ↔ host.store.Kept (Hold.allFrames host.held) closure.home)) ∧
    ((∀ id, ¬ host.store.InCircle id) → ∀ id, host.store.isLive id = true ↔
      ∃ source ∈ Hold.allFrames host.held, host.store.LeadsTo source id) ∧
    (∀ depth env base program into, .scope env ∈ host.held →
      (∀ made, program.Makes depth env host.held base host.store made → ¬ made.ReturnsFunction) →
      ∀ id, (host.run depth env base program into).2.store.isLive id = true →
        host.store.isLive id = true) := by
  have balanced : host.store.Balanced host.held := reached.balanced
  have decided (id : FrameId) :
      host.store.isLive id = true ↔ host.store.Kept (Hold.allFrames host.held) id :=
    Accounted.isLive_iff_kept balanced id
  refine ⟨decided, ?_, ?_, ?_, ?_⟩
  · intro depth handle into id isHandle
    rw [upgrade_answer isHandle, ← decided]
    simp
  · intro depth slot closure isFunction
    exact ⟨_, _, inspect_answer isFunction depth, rfl, decided closure.home⟩
  · intro noCircle id
    rw [decided]
    exact exists_congr fun source => and_congr_left fun _ => or_iff_left (noCircle source)
  · intro depth env base program into inScope never id live
    exact Program.isLive_of_isLive_eval balanced inScope never (isLive_of_isLive_run live)

/-- A function that a call has returned keeps the frame of the call, which is its home, until it is
dropped. Once such a function is bound in the scope where the call was made, the two frames hold
each other, and they stay when nothing is held any more. A call that returns no function leaves no
frame. -/
theorem lifetimes_of_call :
    let kept := start.stepAll 3 [.newScope "scope",
      .evaluate "scope" "fn() \x7b fn() \x7b 1 \x7d \x7d()" (some "kept")]
    let dropped := start.stepAll 3 [.newScope "scope",
      .evaluate "scope" "fn() \x7b fn() \x7b 1 \x7d \x7d()" (some "kept"), .dropValue "kept"]
    let closed := start.stepAll 3 [.newScope "scope", .downgrade "scope" "weak",
      .evaluate "scope" "let f = fn() \x7b fn() \x7b 1 \x7d \x7d();" none, .dropScope "scope"]
    let plain := start.stepAll 3 [.newScope "scope"]
    (kept.store.isLive ⟨1⟩ = true ∧ ∃ description told,
      (kept.step 0 (.inspect "kept")).1 = .ok (.described description) ∧
        description.closure = some told ∧ told.homeIsLive = true) ∧
    (¬ dropped.store.Kept (Hold.allFrames dropped.held) ⟨1⟩ ∧
      ¬ ∃ source ∈ Hold.allFrames dropped.held, dropped.store.LeadsTo source ⟨1⟩) ∧
    (closed.held = [] ∧ closed.store.isLive ⟨1⟩ = true ∧
      (closed.step 0 (.upgrade "weak" none)).1 = .ok (.flag true)) ∧
    ∀ id, (plain.run 2 ⟨0⟩ 0 [.expr (.call (.fn [] [.expr (.int 1)]) [])] none).2.store.isLive id =
      true → plain.store.isLive id = true := by
  intro kept dropped closed plain
  refine ⟨?_, ?_, ?_, ?_⟩
  · obtain ⟨ofFrame, -, ofHome, -, -⟩ := (Reached.start.stepAll 3 _ : kept.Reached).lifetimes
    have frames : Hold.allFrames kept.held = [⟨0⟩, ⟨1⟩] := by unfold kept; cbv
    have isKept : kept.store.Kept (Hold.allFrames kept.held) ⟨1⟩ :=
      ⟨⟨1⟩, Or.inl (frames ▸ .tail _ (.head _)), .refl⟩
    have isFunction : kept.values.find? "kept" =
        some (.function ⟨[], [.expr (.int 1)], [0, 0, 0, 0], ⟨1⟩, [⟨1⟩]⟩) := by unfold kept; cbv
    obtain ⟨description, told, isAnswer, isTold, homeIsLive⟩ := ofHome 0 "kept" _ isFunction
    exact ⟨(ofFrame ⟨1⟩).mpr isKept, description, told, isAnswer, isTold, homeIsLive.mpr isKept⟩
  · obtain ⟨ofFrame, -, -, withoutCircles, -⟩ :=
      (Reached.start.stepAll 3 _ : dropped.Reached).lifetimes
    have isGone : dropped.store.isLive ⟨1⟩ ≠ true := by
      have gone : dropped.store.isLive ⟨1⟩ = false := by unfold dropped; cbv
      simp [gone]
    have noLinks : dropped.store.links = [] := by unfold dropped; cbv
    have noCircle (id : FrameId) : ¬ dropped.store.InCircle id := by
      intro circle
      obtain ⟨holder, -, linked⟩ := Relation.TransGen.tail'_iff.mp circle
      have isLink : id ∈ dropped.store.links := mem_links_iff.mpr ⟨holder, linked⟩
      rw [noLinks] at isLink
      cases isLink
    exact ⟨fun isKept => isGone ((ofFrame ⟨1⟩).mpr isKept),
      fun leads => isGone ((withoutCircles noCircle ⟨1⟩).mpr leads)⟩
  · obtain ⟨ofFrame, ofHandle, -, -, -⟩ := (Reached.start.stepAll 3 _ : closed.Reached).lifetimes
    have nothingHeld : closed.held = [] := by unfold closed; cbv
    have linked {holder id : FrameId}
        (links : (closed.store.frame? holder).map Frame.links = some [id]) :
        closed.store.Links holder id := by
      obtain ⟨frame, isFrame, isLinks⟩ := Option.map_eq_some_iff.mp links
      exact ⟨frame, isFrame, isLinks ▸ List.mem_singleton_self id⟩
    have inner : closed.store.Links ⟨1⟩ ⟨0⟩ := linked (by unfold closed; cbv)
    have outer : closed.store.Links ⟨0⟩ ⟨1⟩ := linked (by unfold closed; cbv)
    have isKept (id : FrameId) (leads : closed.store.LeadsTo ⟨0⟩ id) :
        closed.store.Kept (Hold.allFrames closed.held) id :=
      ⟨⟨0⟩, Or.inr (.tail (.single outer) inner), leads⟩
    have isHandle : closed.weakHandles.find? "weak" = some ⟨0⟩ := by unfold closed; cbv
    exact ⟨nothingHeld, (ofFrame ⟨1⟩).mpr (isKept ⟨1⟩ (.single outer)),
      (ofHandle 0 "weak" none ⟨0⟩ isHandle).mpr (isKept ⟨0⟩ .refl)⟩
  · have reached : plain.Reached := Reached.start.stepAll 3 _
    obtain ⟨-, -, -, -, runs⟩ := reached.lifetimes
    have inScope : .scope ⟨0⟩ ∈ plain.held := by decide
    refine runs 2 ⟨0⟩ 0 _ none inScope ?_
    rintro made makes ⟨depth, closure, after, isApplied⟩
    rcases makes with
      (⟨⟨⟩⟩ | ⟨_, _, ⟨⟩, _, ⟨⟩, ⟨⟨⟩⟩ | ⟨_, _, ⟨⟩, isCall⟩⟩) | ⟨_, _, _, ⟨⟩⟩
    rcases isCall with rfl | ⟨-, -, ⟨⟨⟩⟩ | ⟨_, _, _, ⟨⟩⟩⟩
    cases depth with
    | zero => cases isApplied
    | succ depth =>
        have live := isLive_of_mem_held reached.balanced inScope List.mem_cons_self
        rw [Closure.apply_of_live depth rfl live] at isApplied
        cases isApplied

end Host

end Monkey
