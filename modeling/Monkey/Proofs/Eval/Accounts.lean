/-
# Evaluation keeps the accounts

At every step of an evaluation the holds that a store counts are those of its live
frames and of what is held by the evaluations around that step, and no others.
-/

import Monkey.Proofs.Eval.Invariant
import Monkey.Proofs.Store.Accounts

namespace Monkey

/-- All the frames that are held, once for each hold. -/
def Hold.allFrames (held : List Hold) : List FrameId := held.flatMap Hold.frames

/-- The accounts of a store are right, given everything that is held. -/
def Store.Balanced (held : List Hold) (store : Store) : Prop :=
  store.Accounted (Hold.allFrames held)

theorem Value.captured_of_kind {value : Value} (plain : value.kind ≠ .function) :
    value.captured = [] := by
  cases value with
  | function closure => exact absurd rfl plain
  | _ => rfl

/-- A value that is found in some frame is held there. -/
theorem Store.mem_links_of_resolve {store : Store} {env : FrameId} {name : String}
    {value : Value} (found : store.resolve env name = some value) {id : FrameId}
    (isCaptured : id ∈ value.captured) : id ∈ store.links := by
  obtain ⟨holder, contents, isContents, isBound⟩ := exists_binding_of_resolve found
  obtain ⟨frame, isFrame, rfl⟩ := Option.map_eq_some_iff.mp isContents
  obtain ⟨earlier, later, isEntry, -⟩ := List.lookup_eq_some_iff.mp isBound
  have inFrame : (name, value) ∈ frame.bindings.entries := by
    rw [show frame.bindings.entries = earlier ++ (name, value) :: later from isEntry]
    exact List.mem_append_right _ List.mem_cons_self
  refine mem_links_iff.mpr ⟨holder, frame, isFrame, List.mem_append_right _ ?_⟩
  refine List.mem_flatMap.mpr ⟨value, ?_, isCaptured⟩
  exact List.mem_map.mpr ⟨(name, value), inFrame, rfl⟩

theorem Store.isLive_of_mem_held {held : List Hold} {store : Store}
    (balanced : store.Balanced held) {hold : Hold} (isHeld : hold ∈ held) {id : FrameId}
    (isFrame : id ∈ hold.frames) : store.isLive id = true :=
  balanced.isLive_of_mem (List.mem_flatMap.mpr ⟨hold, isHeld, isFrame⟩)

/-- Every step of an evaluation keeps the accounts right. -/
theorem Store.balanced_invariant : Eval.Invariant fun held store => store.Balanced held where
  perm balanced same := balanced.perm (same.flatMap_right _)
  plain {held store value} balanced plain := by
    have holdsNothing := Value.captured_of_kind plain
    unfold Balanced Hold.allFrames at balanced ⊢
    rw [List.flatMap_cons, Hold.frames, holdsNothing]
    exact balanced
  literal balanced _ _ _ _ := balanced
  found balanced _ found := balanced.retain fun _ isCaptured =>
    balanced.isLive_of_mem_links (mem_links_of_resolve found isCaptured)
  copy balanced isHeld := balanced.retain fun _ isCaptured =>
    isLive_of_mem_held balanced isHeld isCaptured
  drop balanced := balanced.release
  define balanced inScope name := balanced.define
    (balanced.isLive_of_mem (List.mem_append_right _
      (List.mem_flatMap.mpr ⟨_, inScope, List.mem_singleton.mpr rfl⟩))) name
  enter balanced _ live := balanced.alloc (by simpa using live)
  leave {held store closure frame} balanced := by
    unfold Balanced Hold.allFrames at balanced ⊢
    simpa [Hold.frames, Value.captured, Closure.returnedFrom] using balanced

end Monkey
