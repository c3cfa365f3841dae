/-
# Sessions

A session keeps one outermost frame and runs one program after another in it, so each
sees the names that those before it have bound. It numbers the statements it has
loaded, which tells the literals of one program from those of another. A whole script
is a session of one program.
-/

import Monkey.Eval.Outcome
import Monkey.Parse.Basic

namespace Monkey

/-- The store, its outermost frame, and the number of statements loaded so far. -/
structure Session where
  store : Store
  global : FrameId
  loaded : Nat
  deriving DecidableEq

namespace Session

/-- A session in which nothing has been bound. -/
def start : Session :=
  let fresh := Store.empty.alloc none
  ⟨fresh.2, fresh.1, 0⟩

/-- Run a program in the outermost frame. The outcome still holds its value. -/
def run (session : Session) (depth : Nat) (program : Program) : Outcome × Session :=
  let ended := Eval.outcome (program.eval depth session.global session.loaded) session.store
  (ended.1, { session with store := ended.2, loaded := session.loaded + program.length })

/-- Give up the value of an outcome. -/
def giveUp (session : Session) (outcome : Outcome) : Session :=
  { session with store := session.store.release outcome.captured }

end Session

end Monkey
