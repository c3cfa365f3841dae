/-
# Frames in layers

A frame is made inside one that is there already, so it is younger than the frame around it.
The links outwards therefore form a forest, and whoever follows them comes to an outermost frame
in the end. Looking a name up does just that: it asks the frame, and then the frame around it.

Most of what happens to a store makes no frames and binds no names. It lets frames fade, and
that is all that can be told from the contents of those that are left.
-/

import Monkey.Proofs.Store.Chains

namespace Monkey

namespace Store

/-- No frame has been made, and those that are left have the contents that they had. -/
structure FadesTo (before after : Store) : Prop where
  size : after.cells.size = before.cells.size
  contents : ∀ {id contents}, after.contents? id = some contents →
    before.contents? id = some contents

namespace FadesTo

theorem refl (store : Store) : store.FadesTo store := ⟨rfl, id⟩

theorem trans {before middle after : Store} (first : before.FadesTo middle)
    (second : middle.FadesTo after) : before.FadesTo after where
  size := second.size.trans first.size
  contents isContents := first.contents (second.contents isContents)

theorem retain (store : Store) (ids : List FrameId) : store.FadesTo (store.retain ids) where
  size := size_retain store ids
  contents isContents := (contents?_retain store ids _).symm.trans isContents

theorem release (store : Store) (ids : List FrameId) : store.FadesTo (store.release ids) where
  size := size_release store ids
  contents := contents?_of_release

end FadesTo

/-- Every frame is younger than the frame in which it lies. -/
def Layered (store : Store) : Prop :=
  ∀ ⦃inner outer⦄, store.Inside inner outer → outer.index < inner.index

namespace Layered

variable {store after : Store}

theorem empty : Store.empty.Layered := by
  rintro inner outer ⟨contents, isContents, -⟩
  simp [contents?, frame?, Store.empty] at isContents

theorem fades (layered : store.Layered) (fades : store.FadesTo after) : after.Layered := by
  rintro inner outer ⟨contents, isContents, isOuter⟩
  exact layered ⟨contents, fades.contents isContents, isOuter⟩

theorem alloc (layered : store.Layered) {around : Option FrameId}
    (live : ∀ id ∈ around, store.isLive id = true) : (store.alloc around).2.Layered := by
  rintro inner outer ⟨contents, isContents, isOuter⟩
  rcases contents?_of_alloc isContents with ⟨rfl, rfl⟩ | isEarlier
  · exact index_lt_of_isLive (live outer isOuter)
  · exact layered ⟨contents, isEarlier, isOuter⟩

theorem define (layered : store.Layered) {env : FrameId} (live : store.isLive env = true)
    (name : String) (value : Value) : (store.define env name value).Layered := by
  rintro inner outer ⟨contents, isContents, isOuter⟩
  obtain ⟨earlier, isEarlier, sameOuter, -⟩ := contents?_of_define live isContents
  exact layered ⟨earlier, isEarlier, sameOuter.trans isOuter⟩

/-- A name stands for what the frame binds it to, or else for what it stands for in the frame
around it. -/
theorem resolve_eq (layered : store.Layered) {id : FrameId} {contents : Contents}
    (isContents : store.contents? id = some contents) (name : String) :
    store.resolve id name =
      (contents.bindings.find? name).or
        (contents.outer.bind fun outer => store.resolve outer name) := by
  have inside {outer : FrameId} (isOuter : contents.outer = some outer) :
      outer.index < id.index := layered ⟨contents, isContents, isOuter⟩
  obtain ⟨frame, isFrame, rfl⟩ := Option.map_eq_some_iff.mp isContents
  rw [Store.resolve]
  simp only [isFrame, Frame.contents] at inside ⊢
  cases frame.bindings.find? name with
  | some value => rfl
  | none =>
      cases isOuter : frame.outer with
      | none => rfl
      | some outer => simp [inside isOuter]

end Layered

end Store

end Monkey
