/-
# The accounts of a store

A store counts the holds on each of its frames and never looks for the holders.
What makes the counts trustworthy is that they agree with the holders: a frame has
as many holds as it is named by the links of live frames and by whatever is held
from outside the store. Each operation hands over the holds that it says it does,
so the agreement survives every one of them, releases included.

The list of what is held from outside is no part of the store. It is what the
operations and the evaluator owe an explanation for, and it is a list because a
frame can be held several times.
-/

import Monkey.Proofs.Store.Contents

namespace Monkey

/-! ## Bindings -/

namespace Bindings

variable {α : Type}

/-- Every name occurs once, so a look-up parts what is bound to the name from the rest. -/
theorem perm_of_lookup (entries : List (String × α)) (distinct : (entries.map Prod.fst).Nodup)
    (name : String) :
    ((entries.lookup name).toList ++
      (entries.filter fun entry => entry.1 != name).map Prod.snd).Perm (entries.map Prod.snd) := by
  induction entries with
  | nil => exact .nil
  | cons entry entries ih =>
      obtain ⟨key, item⟩ := entry
      obtain ⟨fresh, distinct⟩ := List.nodup_cons.mp distinct
      by_cases isName : key = name
      · subst isName
        have others : entries.filter (fun entry => entry.1 != key) = entries := by
          refine List.filter_eq_self.mpr fun entry isEntry => bne_iff_ne.mpr ?_
          rintro rfl
          exact fresh (List.mem_map.mpr ⟨entry, isEntry, rfl⟩)
        simp [others]
      · have skipped : List.lookup name ((key, item) :: entries) = entries.lookup name := by
          rw [List.lookup_cons, beq_false_of_ne (Ne.symm isName)]
        rw [skipped, List.filter_cons_of_pos (by simpa using isName)]
        exact List.perm_middle.trans ((ih distinct).cons item)

/-- Erasing a name takes out what was bound to it. -/
theorem erase_perm (bindings : Bindings α) (name : String) :
    ((bindings.find? name).toList ++ (bindings.erase name).items).Perm bindings.items :=
  perm_of_lookup bindings.entries bindings.distinct name

/-- Binding a name exchanges what was bound to it. -/
theorem insert_perm (bindings : Bindings α) (name : String) (item : α) :
    ((bindings.find? name).toList ++ (bindings.insert name item).items).Perm
      (item :: bindings.items) :=
  List.perm_middle.trans ((bindings.erase_perm name).cons item)

variable {bindings : Bindings α} {name : String} {item other : α}

theorem mem_items_of_find? (found : bindings.find? name = some item) : item ∈ bindings.items := by
  rw [← (bindings.erase_perm name).mem_iff, found]
  exact List.mem_cons_self

theorem mem_items_of_mem_insert (isItem : other ∈ (bindings.insert name item).items) :
    other = item ∨ other ∈ bindings.items :=
  List.mem_cons.mp ((bindings.insert_perm name item).mem_iff.mp (List.mem_append_right _ isItem))

end Bindings

namespace Store

/-- All holds on a frame. There are none on a frame that is gone. -/
def holds (store : Store) (id : FrameId) : Nat := cellHolds (store.frame? id)

/-- The frames that a cell holds. An empty one holds none. -/
def cellLinks : Option Frame → List FrameId
  | some frame => frame.links
  | none => []

/-- The frames that live frames hold, once for each hold. -/
def links (store : Store) : List FrameId := store.cells.toList.flatMap cellLinks

/-- The counts agree with the holders, given what is held from outside. In particular
nothing that is held or linked to is ever gone. -/
def Accounted (store : Store) (held : List FrameId) : Prop :=
  ∀ id, store.holds id = held.count id + store.links.count id

/-! ## Cells -/

/-- A live frame stands in a cell of its own. -/
theorem exists_cell_of_frame? {store : Store} {id : FrameId} {frame : Frame}
    (live : store.frame? id = some frame) :
    ∃ bound : id.index < store.cells.toList.length, store.cells.toList[id.index] = some frame := by
  unfold frame? at live
  cases h : store.cells[id.index]? with
  | none => simp [h] at live
  | some cell =>
      obtain ⟨bound, rfl⟩ := Array.getElem?_eq_some_iff.mp h
      exact ⟨by simpa using bound, by simpa [h] using live⟩

theorem isLive_iff_holds_pos {store : Store} {id : FrameId} :
    store.isLive id = true ↔ 0 < store.holds id := by
  unfold isLive holds
  cases store.frame? id with
  | none => simp [cellHolds]
  | some frame => simp [cellHolds]

theorem holds_put_of_ne (store : Store) {id other : FrameId} (cell : Option Frame)
    (different : other ≠ id) : (store.put id cell).holds other = store.holds other := by
  rw [holds, holds, frame?_put_of_ne store cell different]

theorem holds_put_self {store : Store} {id : FrameId} {frame : Frame}
    (live : store.frame? id = some frame) (cell : Option Frame) :
    (store.put id cell).holds id = cellHolds cell := by
  rw [holds, frame?_put_self (isLive_of_frame? live)]

/-! ## Links -/

/-- Exchanging one cell of a list exchanges its links for those of the new one. -/
theorem count_flatMap_set_add (cells : List (Option Frame)) (index : Nat)
    (cell : Option Frame) (h : index < cells.length) (id : FrameId) :
    ((cells.set index cell).flatMap cellLinks).count id + (cellLinks cells[index]).count id =
      (cells.flatMap cellLinks).count id + (cellLinks cell).count id := by
  induction cells generalizing index with
  | nil => exact absurd h (Nat.not_lt_zero _)
  | cons first others ih =>
      cases index with
      | zero =>
          simp only [List.set_cons_zero, List.getElem_cons_zero, List.flatMap_cons,
            List.count_append]
          omega
      | succ index =>
          have rest := ih index (Nat.lt_of_succ_lt_succ h)
          simp only [List.set_cons_succ, List.getElem_cons_succ, List.flatMap_cons,
            List.count_append]
          omega

/-- Exchanging a live frame's cell exchanges its links for those of the new one. -/
theorem count_links_put_add {store : Store} {id : FrameId} {frame : Frame}
    (live : store.frame? id = some frame) (cell : Option Frame) (other : FrameId) :
    (store.put id cell).links.count other + frame.links.count other =
      store.links.count other + (cellLinks cell).count other := by
  obtain ⟨bound, isFrame⟩ := exists_cell_of_frame? live
  have exchanged := count_flatMap_set_add store.cells.toList id.index cell bound other
  rw [isFrame] at exchanged
  simpa only [links, put, Array.toList_setIfInBounds, cellLinks] using exchanged

/-- Every link is a link of some live frame. -/
theorem mem_links_iff {store : Store} {id : FrameId} :
    id ∈ store.links ↔ ∃ holder frame, store.frame? holder = some frame ∧ id ∈ frame.links := by
  constructor
  · intro isLink
    obtain ⟨cell, inStore, inCell⟩ := List.mem_flatMap.mp isLink
    cases cell with
    | none => simp [cellLinks] at inCell
    | some frame =>
        obtain ⟨index, bound, isCell⟩ := List.getElem_of_mem inStore
        refine ⟨⟨index⟩, frame, ?_, inCell⟩
        simp only [Array.length_toList] at bound
        simp only [Array.getElem_toList] at isCell
        simp [frame?, bound, isCell]
  · rintro ⟨holder, frame, live, inFrame⟩
    obtain ⟨bound, isCell⟩ := exists_cell_of_frame? live
    exact List.mem_flatMap.mpr ⟨some frame, isCell ▸ List.getElem_mem bound, inFrame⟩

/-- Binding a name again exchanges what is held for the value before by what is held for
the new one. -/
theorem count_links_insert_add (bindings : Bindings Value) (name : String) (value : Value)
    (id : FrameId) :
    ((bindings.insert name value).items.flatMap Value.captured).count id +
        ((bindings.find? name).elim [] Value.captured).count id =
      (bindings.items.flatMap Value.captured).count id + value.captured.count id := by
  have exchanged := ((bindings.insert_perm name value).flatMap_right Value.captured).count_eq id
  rw [List.flatMap_append, List.flatMap_cons, List.count_append, List.count_append] at exchanged
  have before : (bindings.find? name).toList.flatMap Value.captured =
      (bindings.find? name).elim [] Value.captured := by
    cases bindings.find? name <;> simp
  rw [before] at exchanged
  omega

namespace Accounted

variable {store : Store} {held : List FrameId}

/-- The order in which holds are listed does not matter. -/
theorem perm (accounted : store.Accounted held) {other : List FrameId} (same : held.Perm other) :
    store.Accounted other := by
  intro id
  rw [accounted id, same.count_eq]

/-- What is held is live. -/
theorem isLive_of_mem (accounted : store.Accounted held) {id : FrameId} (isHeld : id ∈ held) :
    store.isLive id = true := by
  have counted := List.count_pos_iff.mpr isHeld
  rw [isLive_iff_holds_pos, accounted id]
  omega

/-- What a live frame holds is live. -/
theorem isLive_of_mem_links (accounted : store.Accounted held) {id : FrameId}
    (isLink : id ∈ store.links) : store.isLive id = true := by
  have counted := List.count_pos_iff.mpr isLink
  rw [isLive_iff_holds_pos, accounted id]
  omega

/-- Conversely, whatever is live is held by somebody. -/
theorem mem_or_mem_links (accounted : store.Accounted held) {id : FrameId}
    (live : store.isLive id = true) : id ∈ held ∨ id ∈ store.links := by
  rw [isLive_iff_holds_pos, accounted id] at live
  by_cases isHeld : id ∈ held
  · exact Or.inl isHeld
  · rw [List.count_eq_zero_of_not_mem isHeld, Nat.zero_add] at live
    exact Or.inr (List.count_pos_iff.mp live)

/-! ## Operations -/

/-- Taking a hold on a live frame adds one hold to those outside. -/
theorem retainFrame (accounted : store.Accounted held) {id : FrameId}
    (live : store.isLive id = true) : (store.retainFrame id).Accounted (id :: held) := by
  obtain ⟨frame, isFrame⟩ := exists_frame_of_isLive live
  have retained : store.retainFrame id =
      store.put id (some { frame with extraHolds := frame.extraHolds + 1 }) := by
    simp only [Store.retainFrame, isFrame]
  intro other
  have balance := accounted other
  have exchanged := count_links_put_add isFrame
    (some { frame with extraHolds := frame.extraHolds + 1 }) other
  simp only [cellLinks, Frame.links] at exchanged
  rw [retained]
  by_cases same : other = id
  · subst same
    rw [holds_put_self isFrame]
    simp only [holds, isFrame, cellHolds] at balance ⊢
    rw [List.count_cons_self]
    omega
  · rw [holds_put_of_ne store _ same, List.count_cons_of_ne (Ne.symm same)]
    omega

/-- Taking holds on live frames adds them to those outside. -/
theorem retain {ids : List FrameId} (accounted : store.Accounted held)
    (live : ∀ id ∈ ids, store.isLive id = true) :
    (store.retain ids).Accounted (ids ++ held) := by
  induction ids generalizing store held with
  | nil => exact accounted
  | cons id others ih =>
      have first := accounted.retainFrame (live id List.mem_cons_self)
      have stillLive : ∀ other ∈ others, (store.retainFrame id).isLive other = true := by
        intro other isOther
        rw [isLive_eq_contents?, contents?_retainFrame, ← isLive_eq_contents?]
        exact live other (List.mem_cons_of_mem id isOther)
      have rest := ih first stillLive
      exact rest.perm List.perm_middle

/-- Giving up holds takes them from those outside, however many frames go with them. -/
theorem release {ids : List FrameId} (accounted : store.Accounted (ids ++ held)) :
    (store.release ids).Accounted held := by
  fun_induction Store.release store ids with
  | case1 => exact accounted
  | case2 store id others gone ih =>
      have live := accounted.isLive_of_mem (List.mem_append_left held List.mem_cons_self)
      simp [isLive, gone] at live
  | case3 store id others frame live last ih =>
      -- The last hold was the only reference, so the frame is linked to from nowhere.
      apply ih
      intro other
      have balance := accounted other
      have exchanged := count_links_put_add live none other
      by_cases same : other = id
      · subst same
        rw [holds_put_self live]
        simp only [holds, live, cellHolds, last, cellLinks, List.cons_append,
          List.count_cons_self, List.count_append, List.count_nil] at balance exchanged ⊢
        omega
      · rw [holds_put_of_ne store none same, balance]
        simp only [cellLinks, List.cons_append, List.count_append, List.count_nil,
          List.count_cons_of_ne (Ne.symm same)] at exchanged ⊢
        omega
  | case4 store id others frame live extra more ih =>
      apply ih
      intro other
      have balance := accounted other
      have exchanged := count_links_put_add live (some { frame with extraHolds := extra }) other
      simp only [cellLinks, Frame.links] at exchanged
      by_cases same : other = id
      · subst same
        rw [holds_put_self live]
        simp only [holds, live, cellHolds, more, List.cons_append, List.count_cons_self,
          List.count_append] at balance ⊢
        omega
      · rw [holds_put_of_ne store _ same, balance]
        simp only [List.cons_append, List.count_cons_of_ne (Ne.symm same)]
        omega

/-- Whoever asks for a new frame holds it. -/
theorem alloc (accounted : store.Accounted held) {outer : Option FrameId}
    (live : ∀ id ∈ outer, store.isLive id = true) :
    (store.alloc outer).2.Accounted ((store.alloc outer).1 :: held) := by
  have retained : (store.retain outer.toList).Accounted (outer.toList ++ held) :=
    accounted.retain (by simpa using live)
  generalize isStore : store.retain outer.toList = around at retained
  have size : around.cells.size = store.cells.size := by rw [← isStore, size_retain]
  have links : (store.alloc outer).2.links = around.links ++ outer.toList := by
    simp [Store.alloc, Store.links, isStore, cellLinks, Frame.links, Bindings.empty,
      Bindings.items]
  intro other
  have balance := retained other
  rw [links]
  by_cases same : other = (store.alloc outer).1
  · have gone : around.holds other = 0 := by
      simp [holds, frame?, same, Store.alloc, size, cellHolds]
    have one : (store.alloc outer).2.holds other = 1 := by
      simp [holds, frame?, same, Store.alloc, isStore, ← size, cellHolds]
    rw [gone] at balance
    simp only [List.count_append] at balance ⊢
    rw [one, same, List.count_cons_self, ← same]
    omega
  · have distinct : other.index ≠ around.cells.size := by
      rw [size]
      exact fun sameIndex => same (congrArg FrameId.mk sameIndex)
    have unchanged : (store.alloc outer).2.holds other = around.holds other := by
      simp [holds, frame?, Store.alloc, isStore, Array.getElem?_push, distinct]
    rw [unchanged, balance, List.count_cons_of_ne (Ne.symm same)]
    simp only [List.count_append]
    omega

/-- A binding takes over the holds that come with its value. -/
theorem define {value : Value} (accounted : store.Accounted (value.captured ++ held))
    {id : FrameId} (live : store.isLive id = true) (name : String) :
    (store.define id name value).Accounted held := by
  obtain ⟨frame, isFrame⟩ := exists_frame_of_isLive live
  -- Before the earlier value is given up, it is held from outside.
  have bound : (store.put id (some { frame with
      bindings := frame.bindings.insert name value })).Accounted
      ((frame.bindings.find? name).elim [] Value.captured ++ held) := by
    intro other
    have balance := accounted other
    have exchanged := count_links_put_add isFrame
      (some { frame with bindings := frame.bindings.insert name value }) other
    have inserted := count_links_insert_add frame.bindings name value other
    simp only [cellLinks, Frame.links, List.count_append] at exchanged balance ⊢
    have counted : (store.put id (some { frame with
        bindings := frame.bindings.insert name value })).holds other = store.holds other := by
      by_cases same : other = id
      · subst same
        rw [holds_put_self isFrame, holds, isFrame, cellHolds, cellHolds]
      · exact holds_put_of_ne store _ same
    omega
  unfold Store.define
  simp only [isFrame]
  cases isBound : frame.bindings.find? name with
  | none => simpa [isBound] using bound
  | some earlier =>
      rw [isBound] at bound
      exact bound.release

end Accounted

end Store

end Monkey
