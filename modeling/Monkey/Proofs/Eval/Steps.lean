/-
# Steps of an evaluation

What single actions make of a store, as equations. A call is told apart by the three
checks that come before its body, in the order in which they are made; once they are
passed, its body runs in a new frame in which the parameters are bound.
-/

import Mathlib.Logic.Basic
import Monkey.Proofs.Store.Contents
import Monkey.Session

namespace Monkey

namespace Eval

variable {α β : Type}

theorem bind_of_ok {first : Eval α} {store after : Store} {result : α}
    (isFirst : first store = .ok result after) (second : α → Eval β) :
    (first >>= second) store = second result after := by
  show EStateM.bind first second store = _
  rw [EStateM.bind, isFirst]

theorem bind_of_error {first : Eval α} {store after : Store} {signal : Signal}
    (isFirst : first store = .error signal after) (second : α → Eval β) :
    (first >>= second) store = .error signal after := by
  show EStateM.bind first second store = _
  rw [EStateM.bind, isFirst]

/-- Looking a name up takes one more hold on what it finds. -/
theorem lookup_apply (env : FrameId) (name : String) (store : Store) :
    lookup env name store =
      match store.resolve env name with
      | some value => .ok value (store.retain value.captured)
      | none => .error (.failed (.unknownIdentifier name)) store := by
  have unfolded : lookup env name store =
      (match store.resolve env name with
        | some value => (do retain value; return value)
        | none => fail (.unknownIdentifier name)) store := rfl
  rw [unfolded]
  cases store.resolve env name with
  | some value => rfl
  | none => rfl

end Eval

namespace Closure

/-- The frame of a call made in this store. -/
def callFrame (store : Store) : FrameId := ⟨store.cells.size⟩

/-- The store in which the body of a call begins: a new frame in the home of the function,
and the parameters bound in it. -/
def entered (closure : Closure) (arguments : List Value) (store : Store) : Store :=
  (store.alloc (some closure.home)).2.defineAll (callFrame store)
    (closure.parameters.zip arguments)

variable {closure : Closure} {arguments : List Value} {store : Store}

theorem apply_zero :
    apply 0 closure arguments store =
      .error .tooDeep (store.release (arguments.flatMap Value.captured)) := rfl

/-- The number of arguments is checked before the home is asked for. -/
theorem apply_of_wrongCount (depth : Nat)
    (wrong : closure.parameters.length ≠ arguments.length) :
    apply (depth + 1) closure arguments store =
      .error (.failed (.wrongArgumentCount closure.parameters.length arguments.length))
        (store.release (arguments.flatMap Value.captured)) := by
  rw [apply, if_pos wrong]
  rfl

theorem apply_of_released (depth : Nat)
    (fits : closure.parameters.length = arguments.length)
    (gone : store.isLive closure.home = false) :
    apply (depth + 1) closure arguments store =
      .error (.failed .releasedEnvironment)
        (store.release (arguments.flatMap Value.captured)) := by
  rw [apply, if_neg (not_ne_iff.mpr fits)]
  have asked : (get : Eval Store) store = .ok store store := rfl
  rw [Eval.bind_of_ok asked, gone]
  rfl

theorem apply_of_live (depth : Nat)
    (fits : closure.parameters.length = arguments.length)
    (live : store.isLive closure.home = true) :
    apply (depth + 1) closure arguments store =
      Eval.inFrame (callFrame store)
        (Stmt.evalList (apply depth) (callFrame store) (closure.site.child 0) 0 .null
          closure.body) (closure.entered arguments store) := by
  rw [apply, if_neg (not_ne_iff.mpr fits)]
  have asked : (get : Eval Store) store = .ok store store := rfl
  rw [Eval.bind_of_ok asked, live]
  rfl

end Closure

end Monkey
