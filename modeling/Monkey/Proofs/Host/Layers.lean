/-
# Hosts in layers

Whatever a host is told to do, a frame that it makes lies in one that it had already, and the
programs that it runs make frames inside the homes of functions, which are there as well. So at
every moment each frame of a host is younger than the frame around it. Most commands make no
frame and bind no name: they hand holds over, and all that they do to frames is to let some fade.
-/

import Monkey.Proofs.Host.Lifetimes
import Monkey.Proofs.Store.Layers

namespace Monkey

open Store

/-- A call enters a frame inside the home of its function, so evaluations keep the layers. -/
theorem Store.layered_invariant :
    Eval.Invariant fun held store => store.Balanced held ∧ store.Layered where
  perm kept same := ⟨balanced_invariant.perm kept.1 same, kept.2⟩
  plain kept plain := ⟨balanced_invariant.plain kept.1 plain, kept.2⟩
  literal kept _ _ _ _ := kept
  found kept inScope found :=
    ⟨balanced_invariant.found kept.1 inScope found, kept.2.fades (.retain _ _)⟩
  copy kept isHeld := ⟨balanced_invariant.copy kept.1 isHeld, kept.2.fades (.retain _ _)⟩
  drop kept := ⟨balanced_invariant.drop kept.1, kept.2.fades (.release _ _)⟩
  define kept inScope name := by
    have live := isLive_of_mem_held kept.1 (List.mem_cons_of_mem _ inScope) List.mem_cons_self
    exact ⟨balanced_invariant.define kept.1 inScope name, kept.2.define live name _⟩
  enter kept isHeld live :=
    ⟨balanced_invariant.enter kept.1 isHeld live, kept.2.alloc (by simpa using live)⟩
  leave kept := ⟨balanced_invariant.leave kept.1, kept.2⟩

namespace Host

theorem isLive_of_scope {host : Host} (balanced : host.Balanced []) {name : String}
    {frame : FrameId} (isScope : host.scope name = .ok frame) : host.store.isLive frame = true :=
  isLive_of_mem_held balanced (mem_held_of_scope isScope) List.mem_cons_self

/-! ## Commands that let frames fade -/

theorem fadesTo_keepValue (host : Host) (into : String) (value : Value) :
    host.store.FadesTo (host.keepValue into value).store := .release _ _

theorem fadesTo_keepOrGiveUp (host : Host) (into : Option String) (value : Value) :
    host.store.FadesTo (host.keepOrGiveUp into value).store := by
  cases into with
  | none => exact .release _ _
  | some into => exact .release _ _

theorem fadesTo_keepCopy (host : Host) (frames : List FrameId) (into : String) (value : Value) :
    host.store.FadesTo ((host.retain frames).keepValue into value).store :=
  (FadesTo.retain _ frames).trans (.release _ _)

theorem fadesTo_aliasScope (host : Host) (frame : FrameId) (into : String) :
    host.store.FadesTo ((host.retain [frame]).keepScope into frame).store :=
  (FadesTo.retain _ [frame]).trans (.release _ _)

theorem fadesTo_dropScope (host : Host) (name : String) :
    host.store.FadesTo (host.dropScope name).2.store := by
  unfold dropScope
  cases host.scopes.find? name with
  | none => exact .refl _
  | some frame => exact .release _ _

theorem fadesTo_dropValue (host : Host) (name : String) :
    host.store.FadesTo (host.dropValue name).2.store := by
  unfold dropValue
  cases host.values.find? name with
  | none => exact .refl _
  | some value => exact .release _ _

theorem fadesTo_resolve (host : Host) (frame : FrameId) (name : String) (into : Option String) :
    host.store.FadesTo (host.resolve frame name into).2.store := by
  unfold resolve
  split
  · exact .refl _
  · exact .refl _
  · exact fadesTo_keepCopy host _ _ _

theorem fadesTo_upgrade (host : Host) (frame : FrameId) (into : Option String) :
    host.store.FadesTo (host.upgrade frame into).2.store := by
  unfold upgrade
  split
  · exact fadesTo_aliasScope host frame _
  · exact .refl _

end Host

/-! ## Commands that make frames or bind names -/

namespace Store.Layered

variable {host : Host} (layered : host.store.Layered)

include layered

theorem newFrame {outer : Option FrameId} (live : ∀ around ∈ outer, host.store.isLive around = true)
    (into : String) : (host.newFrame outer into).store.Layered :=
  (layered.alloc live).fades (.release _ _)

theorem run (balanced : host.Balanced []) {frame : FrameId} (inScope : .scope frame ∈ host.held)
    (depth base : Nat) (program : Program) (into : Option String) :
    (host.run depth frame base program into).2.store.Layered := by
  have ended := (Program.eval_transfers layered_invariant depth inScope base program host.store
    ⟨balanced, layered⟩).outcome.2
  unfold Host.run
  generalize (program.eval depth frame base).outcome host.store = reached at ended ⊢
  obtain ⟨outcome, after⟩ := reached
  have left : Store.Layered (Host.store { host with store := after }) := ended
  cases outcome with
  | value result => exact left.fades (Host.fadesTo_keepOrGiveUp _ into result)
  | returned result => exact left.fades (Host.fadesTo_keepOrGiveUp _ into result)
  | failed fault => exact left
  | tooDeep => exact left

theorem withProgram (source : String) {use : Program → Reply × Host}
    (used : ∀ program, (use program).2.store.Layered) :
    (host.withProgram source use).2.store.Layered := by
  unfold Host.withProgram
  split
  · exact layered
  · next program _ => exact used program

theorem perform (balanced : host.Balanced []) {depth : Nat} {command : Command}
    {answer : Reply × Host} (performed : host.perform depth command = .ok answer) :
    answer.2.store.Layered := by
  cases command with
  | newScope into =>
      cases performed
      exact layered.newFrame (by simp) into
  | childScope scope into =>
      obtain ⟨frame, isScope, rest⟩ := Host.exists_of_bind performed
      cases rest
      refine layered.newFrame (fun around isAround => ?_) into
      cases isAround
      exact Host.isLive_of_scope balanced isScope
  | aliasScope scope into =>
      obtain ⟨frame, -, rest⟩ := Host.exists_of_bind performed
      cases rest
      exact layered.fades (host.fadesTo_aliasScope frame into)
  | define scope name operand =>
      obtain ⟨value, -, rest⟩ := Host.exists_of_bind performed
      obtain ⟨frame, isScope, rest⟩ := Host.exists_of_bind rest
      cases rest
      have live := Host.isLive_of_scope balanced isScope
      rw [← isLive_retain host.store value.captured] at live
      exact (layered.fades (.retain _ _)).define live name value
  | resolve scope name into =>
      obtain ⟨frame, -, rest⟩ := Host.exists_of_bind performed
      cases rest
      exact layered.fades (host.fadesTo_resolve frame name into)
  | sameScope first second =>
      obtain ⟨_, -, rest⟩ := Host.exists_of_bind performed
      obtain ⟨_, -, rest⟩ := Host.exists_of_bind rest
      cases rest
      exact layered
  | downgrade scope into =>
      obtain ⟨_, -, rest⟩ := Host.exists_of_bind performed
      cases rest
      exact layered
  | upgrade handle into =>
      obtain ⟨frame, -, rest⟩ := Host.exists_of_bind performed
      cases rest
      exact layered.fades (host.fadesTo_upgrade frame into)
  | dropScope scope =>
      cases performed
      exact layered.fades (host.fadesTo_dropScope scope)
  | dropValue value =>
      cases performed
      exact layered.fades (host.fadesTo_dropValue value)
  | load source into =>
      cases performed
      exact layered.withProgram source fun _ => layered
  | run program scope into =>
      obtain ⟨⟨base, program⟩, -, rest⟩ := Host.exists_of_bind performed
      obtain ⟨frame, isScope, rest⟩ := Host.exists_of_bind rest
      cases rest
      exact layered.run balanced (Host.mem_held_of_scope isScope) depth base program into
  | evaluate scope source into =>
      obtain ⟨frame, isScope, rest⟩ := Host.exists_of_bind performed
      cases rest
      refine layered.withProgram source fun program => ?_
      have reserved : (host.reserve program.length).2.store.Layered := layered
      exact reserved.run balanced (Host.mem_held_of_scope isScope) depth host.loaded program into
  | inspect value =>
      obtain ⟨_, -, rest⟩ := Host.exists_of_bind performed
      cases rest
      exact layered
  | equal first second =>
      obtain ⟨_, -, rest⟩ := Host.exists_of_bind performed
      obtain ⟨_, -, rest⟩ := Host.exists_of_bind rest
      cases rest
      exact layered
  | makeFunction scope parameters body into =>
      obtain ⟨frame, -, rest⟩ := Host.exists_of_bind performed
      cases rest
      refine layered.withProgram body fun body => ?_
      have reserved : (host.reserve 1).2.store.Layered := layered
      exact reserved.fades (Host.fadesTo_keepValue _ into _)
  | capture value scope into =>
      obtain ⟨frame, -, rest⟩ := Host.exists_of_bind performed
      obtain ⟨_, -, rest⟩ := Host.exists_of_bind rest
      obtain ⟨closure, -, rest⟩ := Host.exists_of_bind rest
      cases rest
      exact layered.fades (host.fadesTo_keepCopy _ into _)
  | uncapture value into =>
      obtain ⟨_, -, rest⟩ := Host.exists_of_bind performed
      obtain ⟨_, -, rest⟩ := Host.exists_of_bind rest
      cases rest
      exact layered.fades (Host.fadesTo_keepValue _ into _)

end Store.Layered

namespace Host

/-- Whatever commands a host has been given, its frames lie in older ones. -/
theorem Reached.layered {host : Host} (reached : host.Reached) : host.store.Layered := by
  induction reached with
  | start => exact .empty
  | @step host earlier depth command ih =>
      unfold Host.step
      split
      · next performed => exact ih.perform earlier.balanced performed
      · exact ih

end Host

end Monkey
