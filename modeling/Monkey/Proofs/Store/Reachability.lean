/-
# What keeps a frame alive

Counting holds is a local way to decide a global question: whether a frame can still
be reached through links from something that is held. The two agree except for
circles. A frame in a circle of links has a holder for ever, and so has whatever
the circle leads to. This module proves that there is no other exception: a frame
is live exactly when a held frame, or a frame in a circle, leads to it.
-/

import Mathlib.Data.Fintype.Pigeonhole
import Mathlib.Logic.Relation
import Monkey.Proofs.Store.Accounts

namespace Monkey

namespace Store

/-- A live frame holds another. -/
def Links (store : Store) (holder id : FrameId) : Prop :=
  ∃ frame, store.frame? holder = some frame ∧ id ∈ frame.links

/-- Links lead from one frame to another, in any number of steps. -/
def LeadsTo (store : Store) : FrameId → FrameId → Prop := Relation.ReflTransGen store.Links

/-- Links lead from the frame back to itself. -/
def InCircle (store : Store) (id : FrameId) : Prop := Relation.TransGen store.Links id id

/-- Something held, or something in a circle, leads to the frame. The name of a frame that
a function value has as its home is no link, so it does not count. -/
def Kept (store : Store) (held : List FrameId) (id : FrameId) : Prop :=
  ∃ source, (source ∈ held ∨ store.InCircle source) ∧ store.LeadsTo source id

theorem Kept.step {store : Store} {held : List FrameId} {holder id : FrameId}
    (kept : store.Kept held holder) (linked : store.Links holder id) : store.Kept held id := by
  obtain ⟨source, isSource, path⟩ := kept
  exact ⟨source, isSource, path.tail linked⟩

/-- A walk against the direction of the links leads back to where it began. -/
theorem transGen_of_walk {store : Store} {walk : Nat → FrameId}
    (linked : ∀ step, store.Links (walk (step + 1)) (walk step)) (start extra : Nat) :
    Relation.TransGen store.Links (walk (start + extra + 1)) (walk start) := by
  induction extra with
  | zero => exact .single (linked start)
  | succ extra ih => exact .head (linked (start + extra + 1)) ih

/-- There are only finitely many frames, so a walk that never ends meets a circle. -/
theorem exists_inCircle_of_walk {store : Store} {walk : Nat → FrameId}
    (linked : ∀ step, store.Links (walk (step + 1)) (walk step))
    (live : ∀ step, store.isLive (walk step) = true) :
    ∃ step, store.InCircle (walk step) := by
  let place (step : Nat) : Fin store.cells.size :=
    ⟨(walk step).index, index_lt_of_isLive (live step)⟩
  obtain ⟨first, second, different, same⟩ := Finite.exists_ne_map_eq_of_infinite place
  have meet : walk first = walk second := congrArg FrameId.mk (Fin.mk.inj same)
  have circle {early late : Nat} (before : early < late) (meet : walk early = walk late) :
      store.InCircle (walk early) := by
    obtain ⟨extra, rfl⟩ := Nat.exists_eq_add_of_lt before
    have path := transGen_of_walk linked early extra
    rw [← meet] at path
    exact path
  rcases Nat.lt_or_gt_of_ne different with before | after
  · exact ⟨first, circle before meet⟩
  · exact ⟨second, circle after meet.symm⟩

namespace Accounted

variable {store : Store} {held : List FrameId}

theorem isLive_of_links (accounted : store.Accounted held) {holder id : FrameId}
    (linked : store.Links holder id) : store.isLive id = true := by
  obtain ⟨frame, isFrame, inFrame⟩ := linked
  exact accounted.isLive_of_mem_links (mem_links_iff.mpr ⟨holder, frame, isFrame, inFrame⟩)

/-- What keeps a frame keeps it alive. -/
theorem isLive_of_kept (accounted : store.Accounted held) {id : FrameId}
    (kept : store.Kept held id) : store.isLive id = true := by
  obtain ⟨source, isSource, path⟩ := kept
  induction path with
  | refl =>
      rcases isSource with isHeld | circle
      · exact accounted.isLive_of_mem isHeld
      · obtain ⟨holder, -, linked⟩ := Relation.TransGen.tail'_iff.mp circle
        exact accounted.isLive_of_links linked
  | tail path linked ih => exact accounted.isLive_of_links linked

/-- A live frame that nothing keeps has a holder that nothing keeps either. -/
theorem exists_unkept_holder (accounted : store.Accounted held) {id : FrameId}
    (live : store.isLive id = true) (unkept : ¬ store.Kept held id) :
    ∃ holder, store.Links holder id ∧ store.isLive holder = true ∧ ¬ store.Kept held holder := by
  rcases accounted.mem_or_mem_links live with isHeld | isLink
  · exact absurd ⟨id, Or.inl isHeld, Relation.ReflTransGen.refl⟩ unkept
  · obtain ⟨holder, frame, isFrame, inFrame⟩ := mem_links_iff.mp isLink
    have linked : store.Links holder id := ⟨frame, isFrame, inFrame⟩
    exact ⟨holder, linked, isLive_of_frame? isFrame, fun kept => unkept (kept.step linked)⟩

/-- What is alive is kept. Otherwise one could go back from holder to holder for ever without
coming to anything held, and would have to meet a circle on the way. -/
theorem kept_of_isLive (accounted : store.Accounted held) {id : FrameId}
    (live : store.isLive id = true) : store.Kept held id := by
  by_contra unkept
  let Unkept := { id : FrameId // store.isLive id = true ∧ ¬ store.Kept held id }
  choose back isHolder using fun frame : Unkept =>
    accounted.exists_unkept_holder frame.2.1 frame.2.2
  let before (frame : Unkept) : Unkept :=
    ⟨back frame, (isHolder frame).2.1, (isHolder frame).2.2⟩
  let walk (step : Nat) : Unkept := before^[step] ⟨id, live, unkept⟩
  have linked : ∀ step, store.Links (walk (step + 1)).1 (walk step).1 := by
    intro step
    have next : walk (step + 1) = before (walk step) := Function.iterate_succ_apply' _ _ _
    rw [next]
    exact (isHolder (walk step)).1
  obtain ⟨step, circle⟩ := exists_inCircle_of_walk linked fun step => (walk step).2.1
  exact (walk step).2.2 ⟨_, Or.inr circle, Relation.ReflTransGen.refl⟩

/-- Counting holds decides what keeps a frame. -/
theorem isLive_iff_kept (accounted : store.Accounted held) (id : FrameId) :
    store.isLive id = true ↔ store.Kept held id :=
  ⟨accounted.kept_of_isLive, accounted.isLive_of_kept⟩

end Accounted

end Store

end Monkey
