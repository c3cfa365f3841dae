/-
# The frames around a frame

A frame lies inside another from the moment it is made, and it holds that one. So the
frames around a live frame are live, however far out, and none of them is ever exchanged
for another: whatever happens to a store, the chain from a frame outwards stays what it
was for as long as the frame lives.
-/

import Mathlib.Logic.Relation
import Monkey.Proofs.Store.Accounts

namespace Monkey

namespace Store

/-! ## Where things were before -/

theorem isLive_of_contents? {store : Store} {id : FrameId} {contents : Contents}
    (isContents : store.contents? id = some contents) : store.isLive id = true := by
  rw [isLive_eq_contents?, isContents, Option.isSome_some]

theorem contents?_of_release {store : Store} {ids : List FrameId} {id : FrameId}
    {contents : Contents} (isContents : (store.release ids).contents? id = some contents) :
    store.contents? id = some contents := by
  rw [← contents?_release store ids (isLive_of_contents? isContents), isContents]

/-- A new frame is empty, and the others are what they were. -/
theorem contents?_of_alloc {store : Store} {outer : Option FrameId} {id : FrameId}
    {contents : Contents} (isContents : (store.alloc outer).2.contents? id = some contents) :
    (id = (store.alloc outer).1 ∧ contents = ⟨.empty, outer⟩) ∨
      store.contents? id = some contents := by
  by_cases fresh : id = (store.alloc outer).1
  · rw [fresh, contents?_alloc_self] at isContents
    exact Or.inl ⟨fresh, (Option.some.inj isContents).symm⟩
  · rw [contents?_alloc_of_ne store outer fresh] at isContents
    exact Or.inr isContents

/-- A frame lies where it lay before a name was bound, and only the value that the name has been
bound to has come to be bound. -/
theorem contents?_of_define {store : Store} {env : FrameId} {name : String} {value : Value}
    (live : store.isLive env = true) {id : FrameId} {contents : Contents}
    (isContents : (store.define env name value).contents? id = some contents) :
    ∃ earlier, store.contents? id = some earlier ∧ earlier.outer = contents.outer ∧
      ∀ item ∈ contents.bindings.items,
        (id = env ∧ item = value) ∨ item ∈ earlier.bindings.items := by
  obtain ⟨frame, isFrame⟩ := exists_frame_of_isLive live
  have isEarlier := contents?_of_frame? isFrame
  rw [contents?_define isEarlier name value (isLive_of_contents? isContents)] at isContents
  split at isContents
  · next same =>
      cases isContents
      subst same
      refine ⟨_, isEarlier, rfl, fun item isItem => ?_⟩
      exact (Bindings.mem_items_of_mem_insert isItem).imp_left fun isValue => ⟨rfl, isValue⟩
  · exact ⟨contents, isContents, rfl, fun item => Or.inr⟩

/-! ## Chains -/

/-- A live frame lies directly inside another. -/
def Inside (store : Store) (inner outer : FrameId) : Prop :=
  ∃ contents, store.contents? inner = some contents ∧ contents.outer = some outer

/-- The chain of a frame: the frame itself, and those in which it lies, directly or not. -/
def OnChain (store : Store) : FrameId → FrameId → Prop := Relation.ReflTransGen store.Inside

/-- What is found for a name is bound on the chain of the frame. -/
theorem exists_onChain_of_resolve {store : Store} {env : FrameId} {name : String} {value : Value}
    (found : store.resolve env name = some value) :
    ∃ holder contents, store.OnChain env holder ∧ store.contents? holder = some contents ∧
      value ∈ contents.bindings.items := by
  fun_induction Store.resolve store env name with
  | case1 id gone => simp at found
  | case2 id frame isFrame bound isBound =>
      cases found
      exact ⟨id, frame.contents, .refl, contents?_of_frame? isFrame,
        Bindings.mem_items_of_find? isBound⟩
  | case3 id frame isFrame unbound outermost => simp at found
  | case4 id frame isFrame unbound outer isOuter older ih =>
      obtain ⟨holder, contents, onChain, isContents, isBound⟩ := ih found
      have inside : store.Inside id outer := ⟨frame.contents, contents?_of_frame? isFrame, isOuter⟩
      exact ⟨holder, contents, .head inside onChain, isContents, isBound⟩
  | case5 id frame isFrame unbound outer isOuter younger => simp at found

namespace Accounted

variable {store : Store} {held : List FrameId}

theorem isLive_of_inside (accounted : store.Accounted held) {inner outer : FrameId}
    (inside : store.Inside inner outer) : store.isLive outer = true := by
  obtain ⟨contents, isContents, isOuter⟩ := inside
  obtain ⟨frame, isFrame, rfl⟩ := Option.map_eq_some_iff.mp isContents
  refine accounted.isLive_of_mem_links (mem_links_iff.mpr ⟨inner, frame, isFrame, ?_⟩)
  exact List.mem_append_left _ (Option.mem_toList.mpr isOuter)

theorem isLive_of_onChain (accounted : store.Accounted held) {inner outer : FrameId}
    (live : store.isLive inner = true) (onChain : store.OnChain inner outer) :
    store.isLive outer = true := by
  induction onChain with
  | refl => exact live
  | tail _ inside _ => exact accounted.isLive_of_inside inside

/-- What a bound value has captured is live. -/
theorem isLive_of_bound (accounted : store.Accounted held) {holder id : FrameId}
    {contents : Contents} (isContents : store.contents? holder = some contents) {value : Value}
    (isBound : value ∈ contents.bindings.items) (isCaptured : id ∈ value.captured) :
    store.isLive id = true := by
  obtain ⟨frame, isFrame, rfl⟩ := Option.map_eq_some_iff.mp isContents
  refine accounted.isLive_of_mem_links (mem_links_iff.mpr ⟨holder, frame, isFrame, ?_⟩)
  exact List.mem_append_right _ (List.mem_flatMap.mpr ⟨value, isBound, isCaptured⟩)

end Accounted

/-! ## Stores that come after others -/

/-- No frame comes back, and those that are left lie where they lay. -/
structure EvolvesTo (before after : Store) : Prop where
  size : before.cells.size ≤ after.cells.size
  outer : ∀ {id contents}, id.index < before.cells.size → after.contents? id = some contents →
    ∃ earlier, before.contents? id = some earlier ∧ earlier.outer = contents.outer

namespace EvolvesTo

theorem refl (store : Store) : store.EvolvesTo store where
  size := Nat.le_refl _
  outer _ isContents := ⟨_, isContents, rfl⟩

theorem trans {before middle after : Store} (first : before.EvolvesTo middle)
    (second : middle.EvolvesTo after) : before.EvolvesTo after where
  size := Nat.le_trans first.size second.size
  outer older isContents := by
    obtain ⟨later, isLater, sameOuter⟩ :=
      second.outer (Nat.lt_of_lt_of_le older first.size) isContents
    obtain ⟨earlier, isEarlier, sameLater⟩ := first.outer older isLater
    exact ⟨earlier, isEarlier, sameLater.trans sameOuter⟩

theorem retain (store : Store) (ids : List FrameId) : store.EvolvesTo (store.retain ids) where
  size := Nat.le_of_eq (size_retain store ids).symm
  outer _ isContents := by
    rw [contents?_retain] at isContents
    exact ⟨_, isContents, rfl⟩

theorem release (store : Store) (ids : List FrameId) : store.EvolvesTo (store.release ids) where
  size := Nat.le_of_eq (size_release store ids).symm
  outer _ isContents := ⟨_, contents?_of_release isContents, rfl⟩

theorem define {store : Store} {env : FrameId} (live : store.isLive env = true) (name : String)
    (value : Value) : store.EvolvesTo (store.define env name value) where
  size := Nat.le_of_eq (size_define store env name value).symm
  outer _ isContents := by
    obtain ⟨earlier, isEarlier, sameOuter, -⟩ := contents?_of_define live isContents
    exact ⟨earlier, isEarlier, sameOuter⟩

theorem alloc (store : Store) (around : Option FrameId) :
    store.EvolvesTo (store.alloc around).2 where
  size := by
    rw [size_alloc]
    exact Nat.le_succ _
  outer older isContents := by
    rcases contents?_of_alloc isContents with ⟨rfl, -⟩ | isEarlier
    · exact absurd older (Nat.lt_irrefl _)
    · exact ⟨_, isEarlier, rfl⟩

/-- A frame that had been made already and is live now was live before. -/
theorem isLive {before after : Store} (evolves : before.EvolvesTo after) {id : FrameId}
    (older : id.index < before.cells.size) (live : after.isLive id = true) :
    before.isLive id = true := by
  obtain ⟨contents, isContents⟩ := Option.isSome_iff_exists.mp
    ((isLive_eq_contents? after id).symm.trans live)
  obtain ⟨earlier, isEarlier, -⟩ := evolves.outer older isContents
  exact isLive_of_contents? isEarlier

/-- The chain of a frame that lives on is what it was. -/
theorem onChain {before after : Store} (evolves : before.EvolvesTo after)
    {held heldAfter : List FrameId} (accounted : before.Accounted held)
    (accountedAfter : after.Accounted heldAfter) {inner outer : FrameId}
    (live : before.isLive inner = true) (livesOn : after.isLive inner = true)
    (onChain : before.OnChain inner outer) : after.OnChain inner outer := by
  induction onChain using Relation.ReflTransGen.head_induction_on with
  | refl => exact .refl
  | @head inner middle inside _ ih =>
      obtain ⟨contents, isContents, isOuter⟩ := inside
      obtain ⟨later, isLater⟩ := Option.isSome_iff_exists.mp
        ((isLive_eq_contents? after inner).symm.trans livesOn)
      obtain ⟨earlier, isEarlier, sameOuter⟩ :=
        evolves.outer (index_lt_of_isLive live) isLater
      cases isContents.symm.trans isEarlier
      have insideAfter : after.Inside inner middle := ⟨later, isLater, sameOuter ▸ isOuter⟩
      exact .head insideAfter (ih (accounted.isLive_of_inside ⟨contents, isContents, isOuter⟩)
        (accountedAfter.isLive_of_inside insideAfter))

end EvolvesTo

end Store

end Monkey
