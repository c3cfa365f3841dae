/-
# Counted stores and lasting heaps

Forgetting what a value has captured gives a value whose functions simply own their
homes. A store matches a heap if both have made the same number of frames and every
frame that is still live has, but for captured frames, the contents that it has in the
heap. Nothing is said of frames that are gone, so giving up holds changes nothing, and
neither does taking them; the steps that change contents change both sides alike.
-/

import Monkey.Proofs.Eval.Accounts
import Monkey.Proofs.Ideal.Basic

namespace Monkey

namespace Bindings

variable {α β : Type}

/-- The same names for other things. -/
def map (bindings : Bindings α) (f : α → β) : Bindings β where
  entries := bindings.entries.map fun entry => (entry.1, f entry.2)
  distinct := by simpa [Function.comp_def] using bindings.distinct

@[ext]
theorem ext {first second : Bindings α} (same : first.entries = second.entries) :
    first = second := by
  cases first
  cases second
  cases same
  rfl

@[simp]
theorem map_empty (f : α → β) : (empty : Bindings α).map f = empty := rfl

@[simp]
theorem find?_map (bindings : Bindings α) (f : α → β) (name : String) :
    (bindings.map f).find? name = (bindings.find? name).map f := by
  show (bindings.entries.map fun entry => (entry.1, f entry.2)).lookup name =
    (bindings.entries.lookup name).map f
  induction bindings.entries with
  | nil => rfl
  | cons entry entries ih =>
      rw [List.map_cons, List.lookup_cons, List.lookup_cons, ih]
      cases name == entry.1 <;> rfl

@[simp]
theorem map_insert (bindings : Bindings α) (f : α → β) (name : String) (item : α) :
    (bindings.insert name item).map f = (bindings.map f).insert name (f item) := by
  refine Bindings.ext ?_
  simp [map, insert, erase, List.filter_map, Function.comp_def]

end Bindings

/-! ## Values -/

/-- A function that owns its home and has captured nothing. -/
def Closure.ideal (closure : Closure) : Ideal.Closure :=
  ⟨closure.parameters, closure.body, closure.site, closure.home⟩

namespace Value

/-- A value without the frames that it has captured. -/
def ideal : Value → Ideal.Value
  | int value => .int value
  | bool value => .bool value
  | null => .null
  | function closure => .function closure.ideal

theorem truthy_ideal (value : Value) : value.ideal.truthy = value.truthy := by
  cases value <;> rfl

end Value

theorem PrefixOp.apply_ideal (op : PrefixOp) (operand : Value) :
    Ideal.negate op operand.ideal = (op.apply operand).map Value.ideal := by
  cases op with
  | bang =>
      rw [Ideal.negate, Value.truthy_ideal]
      rfl
  | minus => cases operand <;> rfl

theorem InfixOp.applyInt_ideal (op : InfixOp) (left right : Int64) :
    Ideal.calculate left right op = (op.applyInt left right).map Value.ideal := by
  cases op with
  | divide =>
      rw [Ideal.calculate, applyInt]
      split <;> rfl
  | _ => rfl

/-- Operators see nothing of what functions have captured. -/
theorem InfixOp.apply_ideal (op : InfixOp) (left right : Value) :
    Ideal.combine op left.ideal right.ideal = (op.apply left right).map Value.ideal := by
  cases left with
  | int first =>
      cases right with
      | int second => exact op.applyInt_ideal first second
      | _ => cases op <;> rfl
  | _ => cases right <;> cases op <;> rfl

/-! ## Frames -/

/-- The contents of a frame in a heap in which nothing is captured. -/
def Contents.ideal (contents : Contents) : Ideal.Frame :=
  ⟨contents.bindings.map Value.ideal, contents.outer⟩

namespace Ideal.Heap

theorem frame?_push (heap : Heap) (frame : Frame) (id : FrameId) :
    (Heap.mk (heap.frames.push frame)).frame? id =
      if id.index = heap.frames.size then some frame else heap.frame? id := by
  rw [frame?, Array.getElem?_push]
  rfl

theorem frame?_define {heap : Heap} {id : FrameId} {frame : Frame}
    (isFrame : heap.frame? id = some frame) (name : String) (value : Value) (other : FrameId) :
    (heap.define id name value).frame? other =
      if other = id then some { frame with bindings := frame.bindings.insert name value }
      else heap.frame? other := by
  obtain ⟨bound, -⟩ := Array.getElem?_eq_some_iff.mp isFrame
  simp only [define, isFrame]
  split
  · next same => simp [frame?, same, bound]
  · next different =>
      have distinct : id.index ≠ other.index :=
        fun same => different (congrArg FrameId.mk same.symm)
      simp [frame?, Array.getElem?_setIfInBounds_ne distinct]

theorem size_define (heap : Heap) (id : FrameId) (name : String) (value : Value) :
    (heap.define id name value).frames.size = heap.frames.size := by
  unfold define
  split
  · rfl
  · exact Array.size_setIfInBounds

end Ideal.Heap

namespace Store

/-- A store and a heap agree on everything that programs can see of live frames. -/
structure Matches (store : Store) (heap : Ideal.Heap) : Prop where
  size : heap.frames.size = store.cells.size
  frame : ∀ {id contents}, store.contents? id = some contents →
    heap.frame? id = some contents.ideal

/-- The heap that has the contents of all live frames, and empty frames for the others. -/
def ideal (store : Store) : Ideal.Heap :=
  ⟨store.cells.map fun cell => cell.elim ⟨.empty, none⟩ fun frame => frame.contents.ideal⟩

/-- Every store matches some heap. -/
theorem matches_ideal (store : Store) : store.Matches store.ideal where
  size := Array.size_map
  frame {id contents} isContents := by
    obtain ⟨frame, isFrame, rfl⟩ := Option.map_eq_some_iff.mp isContents
    have isCell := Option.join_eq_some_iff.mp isFrame
    simp [Ideal.Heap.frame?, ideal, isCell]

namespace Matches

variable {store : Store} {heap : Ideal.Heap}

/-- What changes no contents of frames that are still live changes nothing here. -/
theorem mono (matched : store.Matches heap) {after : Store}
    (size : after.cells.size = store.cells.size)
    (unchanged : ∀ id, after.isLive id = true → after.contents? id = store.contents? id) :
    after.Matches heap where
  size := matched.size.trans size.symm
  frame {id contents} isContents := by
    have live : after.isLive id = true := by
      rw [isLive_eq_contents?, isContents, Option.isSome_some]
    exact matched.frame ((unchanged id live).symm.trans isContents)

theorem retain (matched : store.Matches heap) (ids : List FrameId) :
    (store.retain ids).Matches heap :=
  matched.mono (size_retain store ids) fun id _ => contents?_retain store ids id

theorem release (matched : store.Matches heap) (ids : List FrameId) :
    (store.release ids).Matches heap :=
  matched.mono (size_release store ids) fun _ live => contents?_release store ids live

theorem fresh_eq (matched : store.Matches heap) (outer : Option FrameId) :
    (heap.alloc outer).1 = (store.alloc outer).1 :=
  congrArg FrameId.mk matched.size

theorem alloc (matched : store.Matches heap) (outer : Option FrameId) :
    (store.alloc outer).2.Matches (heap.alloc outer).2 where
  size := by
    rw [size_alloc, ← matched.size]
    exact Array.size_push _
  frame {id contents} isContents := by
    have pushed := heap.frame?_push ⟨.empty, outer⟩ id
    by_cases same : id = (store.alloc outer).1
    · subst same
      rw [contents?_alloc_self] at isContents
      cases isContents
      exact pushed.trans (if_pos matched.size.symm)
    · rw [contents?_alloc_of_ne store outer same] at isContents
      have distinct : id.index ≠ heap.frames.size := by
        rw [matched.size]
        exact fun isFresh => same (congrArg FrameId.mk isFresh)
      exact (pushed.trans (if_neg distinct)).trans (matched.frame isContents)

/-- Binding a name in a live frame changes both sides alike. -/
theorem define (matched : store.Matches heap) {env : FrameId} (live : store.isLive env = true)
    (name : String) (value : Value) :
    (store.define env name value).Matches (heap.define env name value.ideal) := by
  obtain ⟨contents, isContents⟩ := Option.isSome_iff_exists.mp
    ((isLive_eq_contents? store env).symm.trans live)
  refine ⟨?_, ?_⟩
  · rw [heap.size_define, size_define, matched.size]
  · intro id after isAfter
    have stillLive : (store.define env name value).isLive id = true := by
      rw [isLive_eq_contents?, isAfter, Option.isSome_some]
    rw [contents?_define isContents name value stillLive] at isAfter
    rw [Ideal.Heap.frame?_define (matched.frame isContents)]
    split at isAfter
    · next same =>
        cases isAfter
        rw [if_pos same, Contents.ideal, Contents.ideal, Bindings.map_insert]
    · next different => rw [if_neg different, matched.frame isAfter]

/-- A name stands for the same value on both sides. The frames around a live frame are live,
so looking the name up never meets a frame that is gone. -/
theorem resolve (matched : store.Matches heap) {held : List FrameId}
    (accounted : store.Accounted held) {env : FrameId} (live : store.isLive env = true)
    (name : String) : heap.resolve env name = (store.resolve env name).map Value.ideal := by
  fun_induction Store.resolve store env name with
  | case1 env gone => simp [isLive, gone] at live
  | case2 env frame isFrame value isBound =>
      rw [Ideal.Heap.resolve, matched.frame (contents?_of_frame? isFrame)]
      simp [Contents.ideal, Frame.contents, isBound]
  | case3 env frame isFrame unbound outermost =>
      rw [Ideal.Heap.resolve, matched.frame (contents?_of_frame? isFrame)]
      simp [Contents.ideal, Frame.contents, unbound, outermost]
  | case4 env frame isFrame unbound outer isOuter older ih =>
      have around : outer ∈ frame.links := List.mem_append_left _ (by simp [isOuter])
      have linked : outer ∈ store.links := mem_links_iff.mpr ⟨env, frame, isFrame, around⟩
      have found := ih (accounted.isLive_of_mem_links linked)
      rw [Ideal.Heap.resolve, matched.frame (contents?_of_frame? isFrame)]
      simp [Contents.ideal, Frame.contents, unbound, isOuter, older, found]
  | case5 env frame isFrame unbound outer isOuter younger =>
      rw [Ideal.Heap.resolve, matched.frame (contents?_of_frame? isFrame)]
      simp [Contents.ideal, Frame.contents, unbound, isOuter, younger]

end Matches

end Store

end Monkey
