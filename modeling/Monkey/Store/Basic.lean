/-
# The store of frames

Frames bind names to values and lie inside one another. Every frame counts its holds:
a handle outside the store, a running call, a frame that lies inside it, or a bound
function that has captured it. Giving up the last hold releases a frame, and with it
the holds that it had on others, so one release can set off many. Frames that hold one
another in a circle are never released. A frame that has been released is gone, and its
name is not used again.

A live frame has at least one hold, so only the holds beyond the first are counted, and
each step of a release takes one away from the whole store. That is why it ends.
-/

import Monkey.Bindings
import Monkey.Store.Value

namespace Monkey

/-- The bindings of one scope, the frame around it, and the holds beyond the first. -/
structure Frame where
  bindings : Bindings Value
  outer : Option FrameId
  extraHolds : Nat
  deriving DecidableEq

/-- The frames that a frame holds, once for each hold: the one around it, and those that
its bound values have captured. -/
def Frame.links (frame : Frame) : List FrameId :=
  frame.outer.toList ++ frame.bindings.items.flatMap Value.captured

/-- All frames ever made, by index; those that were released are empty cells. -/
structure Store where
  cells : Array (Option Frame)
  deriving DecidableEq

namespace Store

/-- No frame has been made yet. -/
def empty : Store := ⟨#[]⟩

/-- The frame of this name, if it has been made and not released. -/
def frame? (store : Store) (id : FrameId) : Option Frame := store.cells[id.index]?.join

/-- Whether the frame has been made and not released. -/
def isLive (store : Store) (id : FrameId) : Bool := (store.frame? id).isSome

/-- Put a cell in place of another. -/
def put (store : Store) (id : FrameId) (cell : Option Frame) : Store :=
  ⟨store.cells.setIfInBounds id.index cell⟩

@[simp]
theorem frame?_put_of_ne (store : Store) {id other : FrameId} (cell : Option Frame)
    (different : other ≠ id) : (store.put id cell).frame? other = store.frame? other := by
  have distinct : id.index ≠ other.index := by
    intro same
    cases id
    cases other
    exact different (congrArg FrameId.mk same.symm)
  simp [frame?, put, Array.getElem?_setIfInBounds_ne distinct]

/-- A live frame's cell can be exchanged. -/
theorem frame?_put_self {store : Store} {id : FrameId} (live : store.isLive id = true)
    (cell : Option Frame) : (store.put id cell).frame? id = cell := by
  have bound : id.index < store.cells.size := by
    by_cases inside : id.index < store.cells.size
    · exact inside
    · simp [isLive, frame?, inside] at live
  simp [frame?, put, bound]

/-- The holds that a cell counts. -/
def cellHolds : Option Frame → Nat
  | some frame => frame.extraHolds + 1
  | none => 0

/-- The holds that some cells count together. -/
def sumHolds : List (Option Frame) → Nat
  | [] => 0
  | cell :: cells => cellHolds cell + sumHolds cells

/-- The holds of all live frames together. -/
def totalHolds (store : Store) : Nat := sumHolds store.cells.toList

/-- Exchanging one cell of a list changes the sum by the difference of the two. -/
theorem sumHolds_set_add (cells : List (Option Frame)) (index : Nat) (cell : Option Frame)
    (h : index < cells.length) :
    sumHolds (cells.set index cell) + cellHolds cells[index] =
      sumHolds cells + cellHolds cell := by
  induction cells generalizing index with
  | nil => exact absurd h (Nat.not_lt_zero _)
  | cons first others ih =>
    cases index with
    | zero =>
      simp only [List.set_cons_zero, List.getElem_cons_zero, sumHolds]
      omega
    | succ index =>
      have rest := ih index (Nat.lt_of_succ_lt_succ h)
      simp only [List.set_cons_succ, List.getElem_cons_succ, sumHolds]
      omega

/-- Exchanging a cell changes the total by the difference of the two cells. -/
theorem totalHolds_put_add {store : Store} {id : FrameId} {frame : Frame}
    (live : store.frame? id = some frame) (cell : Option Frame) :
    (store.put id cell).totalHolds + (frame.extraHolds + 1) =
      store.totalHolds + cellHolds cell := by
  unfold frame? at live
  obtain ⟨bound, isFrame⟩ : ∃ bound : id.index < store.cells.size,
      store.cells[id.index] = some frame := by
    cases h : store.cells[id.index]? with
    | none => simp [h] at live
    | some cell =>
      obtain ⟨bound, rfl⟩ := Array.getElem?_eq_some_iff.mp h
      exact ⟨bound, by simpa [h] using live⟩
  have exchanged := sumHolds_set_add store.cells.toList id.index cell (by simpa using bound)
  simpa [totalHolds, put, Array.toList_setIfInBounds, isFrame, cellHolds] using exchanged

/-- Take one more hold on a live frame. -/
def retainFrame (store : Store) (id : FrameId) : Store :=
  match store.frame? id with
  | some frame => store.put id (some { frame with extraHolds := frame.extraHolds + 1 })
  | none => store

/-- Take one more hold on each of the frames, once for each time it is listed. -/
def retain (store : Store) (ids : List FrameId) : Store := ids.foldl retainFrame store

/-- Give up one hold on each of the frames, once for each time it is listed. A frame whose
last hold goes is released, and its own holds are given up in turn. -/
def release (store : Store) : List FrameId → Store
  | [] => store
  | id :: others =>
    match _ : store.frame? id with
    | none => store.release others
    | some frame =>
      match _ : frame.extraHolds with
      | 0 => (store.put id none).release (frame.links ++ others)
      | extra + 1 => (store.put id (some { frame with extraHolds := extra })).release others
termination_by ids => (store.totalHolds, ids.length)
decreasing_by
  · exact Prod.Lex.right _ (by simp)
  · apply Prod.Lex.left
    have := totalHolds_put_add (by assumption) none
    simp only [cellHolds] at this
    omega
  · apply Prod.Lex.left
    have := totalHolds_put_add (by assumption) (some { frame with extraHolds := extra })
    simp only [cellHolds] at this
    omega

/-- Make an empty frame inside another, or outside of all. Whoever asked for it holds it,
and it holds the frame around it. -/
def alloc (store : Store) (outer : Option FrameId) : FrameId × Store :=
  let fresh : FrameId := ⟨store.cells.size⟩
  let retained := store.retain outer.toList
  (fresh, ⟨retained.cells.push (some ⟨.empty, outer, 0⟩)⟩)

/-- The value that a name has in a frame: the binding there, or else the one around it. A
frame is always younger than the frame around it, so the search ends. -/
def resolve (store : Store) (id : FrameId) (name : String) : Option Value :=
  match store.frame? id with
  | none => none
  | some frame =>
    match frame.bindings.find? name with
    | some value => some value
    | none =>
      match frame.outer with
      | none => none
      | some outer => if outer.index < id.index then store.resolve outer name else none
termination_by id.index

/-- Bind a name in a frame to a value whose hold passes to the frame. The value bound to
the name before is given up. -/
def define (store : Store) (id : FrameId) (name : String) (value : Value) : Store :=
  match store.frame? id with
  | none => store.release value.captured
  | some frame =>
    let bound := store.put id (some { frame with bindings := frame.bindings.insert name value })
    match frame.bindings.find? name with
    | none => bound
    | some earlier => bound.release earlier.captured

/-- Bind names to values one after the other; a name that comes again is bound again. -/
def defineAll (store : Store) (id : FrameId) (bindings : List (String × Value)) : Store :=
  bindings.foldl (fun store binding => store.define id binding.1 binding.2) store

end Store

end Monkey
