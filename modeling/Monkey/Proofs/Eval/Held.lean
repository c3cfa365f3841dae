/-
# What an evaluation holds

An evaluation is always in the middle of other evaluations, and those hold things:
handles on frames, and values that wait for it to end. The rules below follow these
holds from hand to hand. An action is given some holds on top of those around it, and
ends with others: those of its result, those of a returned value, or none at all after
a fault. So a property of the store and of what is held in it is checked for each of a
few steps, and then it lasts through every evaluation, whichever way that ends.
-/

import Monkey.Proofs.Eval.Steps

namespace Monkey

/-- Something that is held while an evaluation goes on: a handle on a frame, or a value. -/
inductive Hold
  | scope (frame : FrameId)
  | value (value : Value)
  deriving DecidableEq

namespace Hold

/-- The frames that are held in this way, once for each hold. -/
def frames : Hold → List FrameId
  | scope frame => [frame]
  | value item => item.captured

/-- Holds on several values. -/
def values (values : List Value) : List Hold := values.map Hold.value

@[simp]
theorem values_nil : values [] = [] := rfl

@[simp]
theorem values_cons (first : Value) (others : List Value) :
    values (first :: others) = .value first :: values others := rfl

end Hold

/-- What a signal holds on its way. -/
def Signal.holds : Signal → List Hold
  | .returned value => [.value value]
  | .failed _ => []
  | .tooDeep => []

namespace Eval

/-- A property of what is held and of the store that survives each step of an evaluation. -/
structure Invariant (I : List Hold → Store → Prop) : Prop where
  /-- The order of the holds does not matter. -/
  perm : ∀ {held other store}, I held store → held.Perm other → I other store
  /-- A value that is no function needs no hold. -/
  plain : ∀ {held store value}, I held store → value.kind ≠ .function →
    I (.value value :: held) store
  /-- A literal makes a function whose home is the frame around it. -/
  literal : ∀ {held store env}, I held store → Hold.scope env ∈ held →
    ∀ parameters body site,
      I (.value (.function ⟨parameters, body, site, env, []⟩) :: held) store
  /-- A value that is found or that is already held can be held once more. -/
  found : ∀ {held store env name value}, I held store → Hold.scope env ∈ held →
    store.resolve env name = some value → I (.value value :: held) (store.retain value.captured)
  copy : ∀ {held store value}, I held store → Hold.value value ∈ held →
    I (.value value :: held) (store.retain value.captured)
  /-- A hold can be given up. -/
  drop : ∀ {held store hold}, I (hold :: held) store → I held (store.release hold.frames)
  /-- A held value can be bound in a held frame. -/
  define : ∀ {held store env value}, I (.value value :: held) store → Hold.scope env ∈ held →
    ∀ name, I held (store.define env name value)
  /-- A call enters a new frame inside the home of its function. -/
  enter : ∀ {held store closure}, I held store → Hold.value (.function closure) ∈ held →
    store.isLive closure.home = true →
    I (.scope (store.alloc (some closure.home)).1 :: held) (store.alloc (some closure.home)).2
  /-- A function that is returned takes over the hold on the frame of the call. -/
  leave : ∀ {held store closure frame},
    I (.value (.function closure) :: .scope frame :: held) store →
    I (.value (.function (closure.returnedFrom frame)) :: held) store

section

variable {I : List Hold → Store → Prop} {held : List Hold} {α β : Type}

/-- A block starts with null in hand, which takes no hold. -/
theorem Invariant.startBlock (invariant : Invariant I) {store : Store} (kept : I held store) :
    I (.value .null :: held) store :=
  invariant.plain kept (by simp [Value.kind])

/-- The property holds after an action, with the holds that it ends with. -/
def Leaves (I : List Hold → Store → Prop) (held : List Hold) (gained : α → List Hold) :
    EStateM.Result Signal Store α → Prop
  | .ok result store => I (gained result ++ held) store
  | .error signal store => I (signal.holds ++ held) store

/-- The action turns the holds that it is given into those that it gains, and keeps the
property while it does so. -/
def Transfers (I : List Hold → Store → Prop) (held given : List Hold) (action : Eval α)
    (gained : α → List Hold) : Prop :=
  ∀ store, I (given ++ held) store → Leaves I held gained (action store)

namespace Transfers

theorem value (result : α) (gained : α → List Hold) :
    Transfers I held (gained result) (pure result) gained :=
  fun _ kept => kept

theorem bind {given : List Hold} {first : Eval α} {middle : α → List Hold}
    {second : α → Eval β} {gained : β → List Hold}
    (isFirst : Transfers I held given first middle)
    (isSecond : ∀ result, Transfers I held (middle result) (second result) gained) :
    Transfers I held given (first >>= second) gained := by
  intro store kept
  have ended := isFirst store kept
  show Leaves I held gained (EStateM.bind first second store)
  unfold EStateM.bind
  generalize first store = reached at ended ⊢
  cases reached with
  | ok result after => exact isSecond result after ended
  | error signal after => exact ended

theorem fail (fault : Fault) (gained : α → List Hold) :
    Transfers I held [] (fail fault) gained :=
  fun _ kept => kept

theorem returned (value : Value) (gained : α → List Hold) :
    Transfers I held [.value value] (throw (.returned value)) gained :=
  fun _ kept => kept

end Transfers

end

end Eval

end Monkey
