/-
# Frames in which names have been changed

A frame of a call inside the literal binds other names, to values that are written with other
names. If no two names become one, a store in which this is so is the store that was, seen
through the change: its frames are held as often and by the same frames as before, so whatever
is done to it is done to both alike, releases included.
-/

import Mathlib.Data.List.Nodup
import Monkey.Proofs.Renaming.Basic
import Monkey.Proofs.Store.Contents

namespace Monkey

/-! ## Bindings -/

namespace Bindings

variable {α β : Type} (bindings : Bindings α) {label : String → String}
  (injective : label.Injective) (f : α → β)

/-- Other names for other things. -/
def relabel : Bindings β where
  entries := bindings.entries.map (Prod.map label f)
  distinct := by
    have names : (bindings.entries.map (Prod.map label f)).map Prod.fst =
        (bindings.entries.map Prod.fst).map label := by
      rw [List.map_map, List.map_map]
      rfl
    rw [names]
    exact bindings.distinct.map injective

theorem find?_relabel (name : String) :
    (bindings.relabel injective f).find? (label name) = (bindings.find? name).map f := by
  show (bindings.entries.map (Prod.map label f)).lookup (label name) =
    (bindings.entries.lookup name).map f
  induction bindings.entries with
  | nil => rfl
  | cons entry entries ih =>
      have same : (label name == label entry.1) = (name == entry.1) := by
        rw [Bool.eq_iff_iff, beq_iff_eq, beq_iff_eq, injective.eq_iff]
      rw [List.map_cons, List.lookup_cons, List.lookup_cons, ih, Prod.map_fst, same]
      cases name == entry.1 <;> rfl

theorem insert_relabel (name : String) (item : α) :
    (bindings.relabel injective f).insert (label name) (f item) =
      (bindings.insert name item).relabel injective f := by
  have others : (bindings.entries.map (Prod.map label f)).filter (·.1 != label name) =
      (bindings.entries.filter (·.1 != name)).map (Prod.map label f) := by
    rw [List.filter_map]
    congr 1
    refine List.filter_congr fun entry _ => ?_
    rw [Bool.eq_iff_iff, bne_iff_ne]
    simp [injective.eq_iff]
  simp only [insert, erase, relabel, List.map_cons, mk.injEq]
  rw [others]
  rfl

theorem items_relabel : (bindings.relabel injective f).items = bindings.items.map f := by
  rw [items, items, relabel, List.map_map, List.map_map]
  rfl

end Bindings

/-! ## Changes that are safe -/

/-- A change of names that makes no two names one. Of the names that occur it changes only
parameters of the literal. -/
structure SafeRenaming extends Renaming where
  occurs : String → Prop
  injective : change.Injective
  isParameter : ∀ name, occurs name → change name ≠ name → name ∈ literal.parameters

namespace SafeRenaming

instance : Coe SafeRenaming Renaming := ⟨SafeRenaming.toRenaming⟩

theorem name_injective (r : SafeRenaming) (inside : Bool) : (r.name inside).Injective := by
  cases inside with
  | false => exact Function.injective_id
  | true => exact r.injective

end SafeRenaming

/-! ## Frames -/

section

variable (r : SafeRenaming)

/-- A frame of a call, inside the literal or outside. -/
def Frame.rename (inside : Bool) (frame : Frame) : Frame :=
  { frame with
    bindings := frame.bindings.relabel (r.name_injective inside) (Value.rename r) }

@[simp]
theorem Frame.links_rename (inside : Bool) (frame : Frame) :
    (frame.rename r inside).links = frame.links := by
  rw [links, links, rename, Bindings.items_relabel, List.flatMap_map]
  simp

variable (inside : FrameId → Bool)

/-- The store with other names, given which frames are those of calls inside the literal. -/
def Store.rename (store : Store) : Store where
  cells := store.cells.mapIdx fun index cell =>
    cell.map (Frame.rename r (inside ⟨index⟩))

namespace Store

variable (store : Store)

theorem frame?_rename (id : FrameId) :
    (store.rename r inside).frame? id =
      (store.frame? id).map (Frame.rename r (inside id)) := by
  rw [frame?, rename, Array.getElem?_mapIdx, frame?]
  cases store.cells[id.index]? <;> rfl

@[simp]
theorem isLive_rename (id : FrameId) :
    (store.rename r inside).isLive id = store.isLive id := by
  rw [isLive, frame?_rename, Option.isSome_map, isLive]

@[simp]
theorem size_rename : (store.rename r inside).cells.size = store.cells.size :=
  Array.size_mapIdx

/-- Only the frames that have been made matter. -/
theorem rename_congr {inside other : FrameId → Bool}
    (same : ∀ id : FrameId, id.index < store.cells.size → inside id = other id) :
    store.rename r inside = store.rename r other := by
  refine congrArg Store.mk (Array.ext (by simp) fun index isIndex _ => ?_)
  rw [Array.getElem_mapIdx, Array.getElem_mapIdx, same ⟨index⟩ (by simpa using isIndex)]

theorem put_rename (id : FrameId) (cell : Option Frame) :
    (store.rename r inside).put id (cell.map (Frame.rename r (inside id))) =
      (store.put id cell).rename r inside := by
  refine congrArg Store.mk (Array.ext_getElem? fun index => ?_)
  simp only [rename, put, Array.getElem?_mapIdx, Array.getElem?_setIfInBounds, Array.size_mapIdx]
  by_cases same : id.index = index
  · subst same
    rw [if_pos rfl, if_pos rfl]
    split <;> rfl
  · rw [if_neg same, if_neg same]

/-! ## Holds -/

theorem retainFrame_rename (id : FrameId) :
    (store.rename r inside).retainFrame id =
      (store.retainFrame id).rename r inside := by
  rw [retainFrame, retainFrame, frame?_rename]
  cases store.frame? id with
  | none => rfl
  | some frame =>
      exact store.put_rename r inside id
        (some { frame with extraHolds := frame.extraHolds + 1 })

theorem retain_rename (ids : List FrameId) :
    (store.rename r inside).retain ids =
      (store.retain ids).rename r inside := by
  induction ids generalizing store with
  | nil => rfl
  | cons id others ih =>
      show ((store.rename r inside).retainFrame id).retain others = _
      rw [retainFrame_rename, ih]
      rfl

theorem release_rename (ids : List FrameId) :
    (store.rename r inside).release ids =
      (store.release ids).rename r inside := by
  fun_induction Store.release store ids with
  | case1 store => rw [release]
  | case2 store id others gone ih =>
      have gone' := store.frame?_rename r inside id
      rw [gone] at gone'
      rw [release_cons_of_gone gone', ih]
  | case3 store id others frame isFrame last ih =>
      have isFrame' := store.frame?_rename r inside id
      rw [isFrame] at isFrame'
      rw [release_cons_of_last isFrame' last, Frame.links_rename, ← ih]
      exact congrArg (release · _) (store.put_rename r inside id none)
  | case4 store id others frame isFrame extra more ih =>
      have isFrame' := store.frame?_rename r inside id
      rw [isFrame] at isFrame'
      rw [release_cons_of_more isFrame' more, ← ih]
      exact congrArg (release · _) (store.put_rename r inside id
        (some { frame with extraHolds := extra }))

/-! ## New frames and new bindings -/

/-- A new frame is empty, whatever calls it is for. -/
theorem alloc_rename (outer : Option FrameId) :
    (store.rename r inside).alloc outer =
      ((store.alloc outer).1, (store.alloc outer).2.rename r inside) := by
  have pushed (around : Store) : (around.rename r inside).cells.push
      (some ⟨.empty, outer, 0⟩) =
        (Store.rename r inside ⟨around.cells.push (some ⟨.empty, outer, 0⟩)⟩).cells := by
    rw [rename, rename, Array.mapIdx_push]
    rfl
  rw [alloc, alloc, retain_rename, size_rename, pushed]

theorem define_rename (id : FrameId) (name : String) (value : Value) :
    (store.rename r inside).define id (r.name (inside id) name) (value.rename r) =
      (store.define id name value).rename r inside := by
  rw [define, define, frame?_rename]
  cases store.frame? id with
  | none =>
      show (store.rename r inside).release (value.rename r).captured = _
      rw [Value.captured_rename, release_rename]
  | some frame =>
      have found := frame.bindings.find?_relabel (r.name_injective (inside id))
        (Value.rename r) name
      have inserted := frame.bindings.insert_relabel (r.name_injective (inside id))
        (Value.rename r) name value
      have exchanged := store.put_rename r inside id
        (some { frame with bindings := frame.bindings.insert name value })
      simp only [Option.map_some, Frame.rename] at exchanged ⊢
      rw [found, inserted, exchanged]
      cases frame.bindings.find? name with
      | none => rfl
      | some earlier =>
          simp only [Option.map_some, Value.captured_rename]
          exact release_rename r inside _ earlier.captured

theorem defineAll_rename (id : FrameId) (bindings : List (String × Value)) :
    (store.rename r inside).defineAll id
        (bindings.map (Prod.map (r.name (inside id)) (Value.rename r))) =
      (store.defineAll id bindings).rename r inside := by
  induction bindings generalizing store with
  | nil => rfl
  | cons binding bindings ih =>
      show ((store.rename r inside).define id (r.name (inside id) binding.1)
        (binding.2.rename r)).defineAll id _ = _
      rw [define_rename, ih]
      rfl

end Store

end

end Monkey
