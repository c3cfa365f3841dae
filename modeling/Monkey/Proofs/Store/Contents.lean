/-
# The contents of frames

Programs see the bindings of a frame and the frame around it, and nothing of its
holds. This module separates the two: taking holds changes no contents, giving them
up can only remove whole frames, and the two operations that do change contents
change those of one frame. Looking a name up is a function of contents alone.
-/

import Monkey.Store.Basic

namespace Monkey

/-- What programs can see of a frame. -/
structure Contents where
  bindings : Bindings Value
  outer : Option FrameId
  deriving DecidableEq

/-- A frame without its holds. -/
def Frame.contents (frame : Frame) : Contents := ⟨frame.bindings, frame.outer⟩

namespace Store

/-- The contents of a frame, if it has been made and not released. -/
def contents? (store : Store) (id : FrameId) : Option Contents :=
  (store.frame? id).map Frame.contents

theorem isLive_eq_contents? (store : Store) (id : FrameId) :
    store.isLive id = (store.contents? id).isSome := by
  rw [isLive, contents?, Option.isSome_map]

theorem contents?_of_frame? {store : Store} {id : FrameId} {frame : Frame}
    (live : store.frame? id = some frame) : store.contents? id = some frame.contents := by
  rw [contents?, live, Option.map_some]

theorem isLive_of_frame? {store : Store} {id : FrameId} {frame : Frame}
    (live : store.frame? id = some frame) : store.isLive id = true := by
  rw [isLive, live, Option.isSome_some]

theorem exists_frame_of_isLive {store : Store} {id : FrameId} (live : store.isLive id = true) :
    ∃ frame, store.frame? id = some frame :=
  Option.isSome_iff_exists.mp live

/-- A live frame has one of the indices given out so far. -/
theorem index_lt_of_isLive {store : Store} {id : FrameId} (live : store.isLive id = true) :
    id.index < store.cells.size := by
  by_cases inside : id.index < store.cells.size
  · exact inside
  · simp [isLive, frame?, inside] at live

@[simp]
theorem contents?_put_of_ne (store : Store) {id other : FrameId} (cell : Option Frame)
    (different : other ≠ id) : (store.put id cell).contents? other = store.contents? other := by
  rw [contents?, frame?_put_of_ne store cell different, contents?]

theorem contents?_put_self {store : Store} {id : FrameId} {frame : Frame}
    (live : store.frame? id = some frame) (cell : Option Frame) :
    (store.put id cell).contents? id = cell.map Frame.contents := by
  rw [contents?, frame?_put_self (isLive_of_frame? live)]

@[simp]
theorem size_put (store : Store) (id : FrameId) (cell : Option Frame) :
    (store.put id cell).cells.size = store.cells.size := by
  simp [put]

/-! ## Holds -/

/-- Exchanging the holds of a frame leaves all contents as they were. -/
theorem contents?_put_holds {store : Store} {id : FrameId} {frame : Frame}
    (live : store.frame? id = some frame) (holds : Nat) (other : FrameId) :
    (store.put id (some { frame with extraHolds := holds })).contents? other =
      store.contents? other := by
  by_cases same : other = id
  · subst same
    rw [contents?_put_self live, contents?_of_frame? live, Option.map_some, Frame.contents,
      Frame.contents]
  · exact contents?_put_of_ne store _ same

theorem contents?_retainFrame (store : Store) (id other : FrameId) :
    (store.retainFrame id).contents? other = store.contents? other := by
  unfold retainFrame
  split
  · next frame live => exact contents?_put_holds live _ other
  · rfl

@[simp]
theorem size_retainFrame (store : Store) (id : FrameId) :
    (store.retainFrame id).cells.size = store.cells.size := by
  unfold retainFrame
  split <;> simp

/-- Taking holds changes no contents. -/
@[simp]
theorem contents?_retain (store : Store) (ids : List FrameId) (other : FrameId) :
    (store.retain ids).contents? other = store.contents? other := by
  induction ids generalizing store with
  | nil => rfl
  | cons id others ih =>
      exact (ih (store.retainFrame id)).trans (contents?_retainFrame store id other)

@[simp]
theorem size_retain (store : Store) (ids : List FrameId) :
    (store.retain ids).cells.size = store.cells.size := by
  induction ids generalizing store with
  | nil => rfl
  | cons id others ih => exact (ih (store.retainFrame id)).trans (size_retainFrame store id)

@[simp]
theorem isLive_retain (store : Store) (ids : List FrameId) (other : FrameId) :
    (store.retain ids).isLive other = store.isLive other := by
  rw [isLive_eq_contents?, contents?_retain, isLive_eq_contents?]

/-- There is nothing to give up on a frame that is gone. -/
theorem release_cons_of_gone {store : Store} {id : FrameId} (gone : store.frame? id = none)
    (others : List FrameId) : store.release (id :: others) = store.release others := by
  rw [release]
  split
  · rfl
  · next frame live => simp [gone] at live

/-- Giving up the last hold on a frame gives up the holds that it had. -/
theorem release_cons_of_last {store : Store} {id : FrameId} {frame : Frame}
    (live : store.frame? id = some frame) (last : frame.extraHolds = 0)
    (others : List FrameId) :
    store.release (id :: others) = (store.put id none).release (frame.links ++ others) := by
  rw [release]
  split
  · next gone => simp [gone] at live
  · next other isOther =>
      obtain rfl : frame = other := Option.some.inj (live.symm.trans isOther)
      split
      · rfl
      · next extra more => simp [last] at more

/-- Giving up any other hold takes one away. -/
theorem release_cons_of_more {store : Store} {id : FrameId} {frame : Frame} {extra : Nat}
    (live : store.frame? id = some frame) (more : frame.extraHolds = extra + 1)
    (others : List FrameId) :
    store.release (id :: others) =
      (store.put id (some { frame with extraHolds := extra })).release others := by
  rw [release]
  split
  · next gone => simp [gone] at live
  · next other isOther =>
      obtain rfl : frame = other := Option.some.inj (live.symm.trans isOther)
      split
      · next last => simp [last] at more
      · next fewer isMore =>
          obtain rfl : extra = fewer := by omega
          rfl

/-- Giving up holds in two goes is giving them up in one. -/
theorem release_append (store : Store) (first second : List FrameId) :
    store.release (first ++ second) = (store.release first).release second := by
  fun_induction Store.release store first with
  | case1 => rfl
  | case2 store id others gone ih =>
      rw [List.cons_append, release_cons_of_gone gone, ih]
  | case3 store id others frame live last ih =>
      rw [List.cons_append, release_cons_of_last live last, ← List.append_assoc, ih]
  | case4 store id others frame live extra more ih =>
      rw [List.cons_append, release_cons_of_more live more, ih]

/-- Giving up holds removes frames whole or not at all. -/
theorem contents?_release (store : Store) (ids : List FrameId) {other : FrameId}
    (live : (store.release ids).isLive other = true) :
    (store.release ids).contents? other = store.contents? other := by
  fun_induction Store.release store ids with
  | case1 => rfl
  | case2 store id others gone ih => exact ih live
  | case3 store id others frame isFrame last ih =>
      rw [ih live]
      have kept : other ≠ id := by
        rintro rfl
        have same := ih live
        rw [contents?_put_self isFrame, Option.map_none] at same
        simp [isLive_eq_contents?, same] at live
      exact contents?_put_of_ne store none kept
  | case4 store id others frame isFrame extra more ih =>
      rw [ih live]
      exact contents?_put_holds isFrame extra other

@[simp]
theorem size_release (store : Store) (ids : List FrameId) :
    (store.release ids).cells.size = store.cells.size := by
  fun_induction Store.release store ids with
  | case1 => rfl
  | case2 store id others gone ih => exact ih
  | case3 store id others frame isFrame last ih => rw [ih, size_put]
  | case4 store id others frame isFrame extra more ih => rw [ih, size_put]

/-- What is live after a release was live before it. -/
theorem isLive_of_isLive_release {store : Store} {ids : List FrameId} {other : FrameId}
    (live : (store.release ids).isLive other = true) : store.isLive other = true := by
  rw [isLive_eq_contents?, ← contents?_release store ids live, ← isLive_eq_contents?, live]

/-! ## New frames and new bindings -/

@[simp]
theorem size_alloc (store : Store) (outer : Option FrameId) :
    (store.alloc outer).2.cells.size = store.cells.size + 1 := by
  simp [alloc]

/-- A cell put behind all others adds its contents and changes no others. -/
theorem contents?_push (store : Store) (frame : Frame) (id : FrameId) :
    (Store.mk (store.cells.push (some frame))).contents? id =
      if id.index = store.cells.size then some frame.contents else store.contents? id := by
  simp only [contents?, frame?, Array.getElem?_push]
  split <;> rfl

/-- A new frame is empty. -/
theorem contents?_alloc_self (store : Store) (outer : Option FrameId) :
    (store.alloc outer).2.contents? (store.alloc outer).1 = some ⟨.empty, outer⟩ := by
  have size : store.cells.size = (store.retain outer.toList).cells.size :=
    (size_retain store outer.toList).symm
  rw [alloc, contents?_push, if_pos size, Frame.contents]

theorem contents?_alloc_of_ne (store : Store) (outer : Option FrameId) {other : FrameId}
    (different : other ≠ (store.alloc outer).1) :
    (store.alloc outer).2.contents? other = store.contents? other := by
  have distinct : other.index ≠ (store.retain outer.toList).cells.size := by
    rw [size_retain]
    exact fun same => different (congrArg FrameId.mk same)
  rw [alloc, contents?_push, if_neg distinct, contents?_retain]

/-- Binding a name changes the contents of one frame. Others may be released by it, and so
may that frame itself if nothing else holds it. -/
theorem contents?_define {store : Store} {id : FrameId} {contents : Contents}
    (isContents : store.contents? id = some contents) (name : String) (value : Value)
    {other : FrameId} (live : (store.define id name value).isLive other = true) :
    (store.define id name value).contents? other =
      if other = id then some { contents with bindings := contents.bindings.insert name value }
      else store.contents? other := by
  obtain ⟨frame, isFrame, rfl⟩ := Option.map_eq_some_iff.mp isContents
  have bound : (store.put id (some { frame with
      bindings := frame.bindings.insert name value })).contents? other =
      if other = id then some ⟨frame.bindings.insert name value, frame.outer⟩
      else store.contents? other := by
    split
    · next same => rw [same, contents?_put_self isFrame, Option.map_some, Frame.contents]
    · next different => exact contents?_put_of_ne store _ different
  unfold define at live ⊢
  simp only [isFrame] at live ⊢
  split at live
  · exact bound
  · rw [contents?_release _ _ live]
    exact bound

@[simp]
theorem size_define (store : Store) (id : FrameId) (name : String) (value : Value) :
    (store.define id name value).cells.size = store.cells.size := by
  unfold define
  split
  · exact size_release store _
  · split
    · exact size_put store _ _
    · rw [size_release, size_put]

/-! ## Looking names up -/

/-- A value that is found is bound in some frame. -/
theorem exists_binding_of_resolve {store : Store} {id : FrameId} {name : String} {value : Value}
    (found : store.resolve id name = some value) :
    ∃ holder contents, store.contents? holder = some contents ∧
      contents.bindings.find? name = some value := by
  fun_induction Store.resolve store id name with
  | case1 id gone => simp at found
  | case2 id frame isFrame bound isBound =>
      cases found
      exact ⟨id, frame.contents, contents?_of_frame? isFrame, isBound⟩
  | case3 id frame isFrame unbound outermost => simp at found
  | case4 id frame isFrame unbound outer isOuter older ih => exact ih found
  | case5 id frame isFrame unbound outer isOuter younger => simp at found

end Store

end Monkey
