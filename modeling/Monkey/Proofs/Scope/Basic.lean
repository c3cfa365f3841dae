/-
# Names that are certainly bound

By its text alone a program can make sure that every name in it will be found. A parameter is
bound in the body of its function, a binding among some statements holds for those behind it
and for all that is nested in them, and a function literal that is bound as a whole may also
name itself. Bindings made inside a conditional are not counted on outside it, since its other
branch may have been taken.

What evaluation makes of this is a fact about heaps in which frames last. A frame stays inside
the one it was made in, and a name that has been bound is bound again at most. So a name that
was found from some frame is found from there ever after, and the names that the body of a
function counts on can be promised when the function is made, or, for its own name, as soon as
that is bound.
-/

import Monkey.Proofs.Ideal.Matching

namespace Monkey

/-! ## Programs -/

/-- Whether an expression is a function literal. -/
def Expr.isFn : Expr → Bool
  | .fn _ _ => true
  | _ => false

theorem Expr.eq_fn_of_isFn {expr : Expr} (isFn : expr.isFn = true) :
    ∃ parameters body, expr = .fn parameters body := by
  cases expr with
  | fn parameters body => exact ⟨parameters, body, rfl⟩
  | _ => cases isFn

/-- The names that a statement binds for the statements behind it. -/
def Stmt.names : Stmt → List String
  | .letBind name _ => [name]
  | _ => []

mutual

/-- Whether each name in an expression is among the names in scope, or bound on the way to it. -/
def Expr.isBound : List String → Expr → Bool
  | scope, .ident name => name ∈ scope
  | _, .int _ => true
  | _, .bool _ => true
  | scope, .prefixOp _ operand => operand.isBound scope
  | scope, .infixOp _ left right => left.isBound scope && right.isBound scope
  | scope, .ifElse condition consequence none =>
    condition.isBound scope && Stmt.listBound scope consequence
  | scope, .ifElse condition consequence (some alternative) =>
    condition.isBound scope && Stmt.listBound scope consequence &&
      Stmt.listBound scope alternative
  | scope, .fn parameters body => Stmt.listBound (parameters ++ scope) body
  | scope, .call callee arguments => callee.isBound scope && Expr.listBound scope arguments
  termination_by structural _ expr => expr

/-- Whether each name in a statement is. A function literal may name what it is bound to. -/
def Stmt.isBound : List String → Stmt → Bool
  | scope, .letBind name value => value.isBound (if value.isFn then name :: scope else scope)
  | scope, .ret value => value.isBound scope
  | scope, .expr value => value.isBound scope
  termination_by structural _ stmt => stmt

/-- Whether each name in some statements is, what is bound by one of them counting for those
behind it. -/
def Stmt.listBound : List String → List Stmt → Bool
  | _, [] => true
  | scope, stmt :: stmts => stmt.isBound scope && Stmt.listBound (stmt.names ++ scope) stmts
  termination_by structural _ stmts => stmts

/-- Whether each name in some expressions is. -/
def Expr.listBound : List String → List Expr → Bool
  | _, [] => true
  | scope, expr :: exprs => expr.isBound scope && Expr.listBound scope exprs
  termination_by structural _ exprs => exprs

end

namespace Ideal

/-! ## Heaps that grow -/

namespace Heap

/-- A later heap: each frame is where it was, and binds the names that it bound. -/
def Grows (before after : Heap) : Prop :=
  ∀ id frame, before.frame? id = some frame →
    ∃ later, after.frame? id = some later ∧ later.outer = frame.outer ∧
      ∀ name, (frame.bindings.find? name).isSome = true →
        (later.bindings.find? name).isSome = true

namespace Grows

theorem refl (heap : Heap) : heap.Grows heap :=
  fun _ frame isFrame => ⟨frame, isFrame, rfl, fun _ isBound => isBound⟩

theorem trans {before between after : Heap} (first : before.Grows between)
    (second : between.Grows after) : before.Grows after := by
  intro id frame isFrame
  obtain ⟨later, isLater, sameOuter, stays⟩ := first id frame isFrame
  obtain ⟨last, isLast, sameOuter', stays'⟩ := second id later isLater
  exact ⟨last, isLast, sameOuter'.trans sameOuter, fun name isBound => stays' name (stays name isBound)⟩

theorem alloc (heap : Heap) (outer : Option FrameId) : heap.Grows (heap.alloc outer).2 := by
  intro id frame isFrame
  have inside : id.index < heap.frames.size := (Array.getElem?_eq_some_iff.mp isFrame).1
  have pushed : (heap.alloc outer).2.frame? id = some frame :=
    (heap.frame?_push ⟨.empty, outer⟩ id).trans ((if_neg (Nat.ne_of_lt inside)).trans isFrame)
  exact ⟨frame, pushed, rfl, fun _ isBound => isBound⟩

theorem define (heap : Heap) (env : FrameId) (name : String) (value : Value) :
    heap.Grows (heap.define env name value) := by
  cases isEnv : heap.frame? env with
  | none =>
      rw [Heap.define, isEnv]
      exact refl heap
  | some here =>
      intro id frame isFrame
      have defined := frame?_define isEnv name value id
      by_cases same : id = env
      · subst same
        rw [isFrame] at isEnv
        cases isEnv
        refine ⟨_, defined.trans (if_pos rfl), rfl, fun other isBound => ?_⟩
        by_cases sameName : other = name
        · rw [sameName, Bindings.find?_insert_self, Option.isSome_some]
        · rw [Bindings.find?_insert_of_ne _ _ sameName]
          exact isBound
      · exact ⟨frame, (defined.trans (if_neg same)).trans isFrame, rfl, fun _ isBound => isBound⟩

/-- A name that was found is found in a later heap. -/
theorem resolve {before after : Heap} (grows : before.Grows after) (env : FrameId) (name : String)
    (found : (before.resolve env name).isSome = true) :
    (after.resolve env name).isSome = true := by
  fun_induction Heap.resolve before env name with
  | case1 env gone => cases found
  | case2 env frame isFrame value isBound =>
      obtain ⟨later, isLater, -, stays⟩ := grows env frame isFrame
      obtain ⟨again, isAgain⟩ := Option.isSome_iff_exists.mp (stays name (by rw [isBound]; rfl))
      rw [Heap.resolve, isLater]
      simp [isAgain]
  | case3 env frame isFrame unbound outermost => cases found
  | case4 env frame isFrame unbound outer isOuter older ih =>
      obtain ⟨later, isLater, sameOuter, -⟩ := grows env frame isFrame
      rw [Heap.resolve, isLater]
      cases isHere : later.bindings.find? name with
      | some value => simp [isHere]
      | none => simpa [isHere, sameOuter, isOuter, older] using ih found
  | case5 env frame isFrame unbound outer isOuter younger => cases found

end Grows

/-! ## Names that are found -/

/-- A frame from which every name of a scope is found. -/
structure Binds (heap : Heap) (env : FrameId) (scope : List String) : Prop where
  made : (heap.frame? env).isSome = true
  found : ∀ name ∈ scope, (heap.resolve env name).isSome = true

namespace Binds

variable {heap : Heap} {env : FrameId} {scope : List String}

theorem grow (binds : heap.Binds env scope) {after : Heap} (grows : heap.Grows after) :
    after.Binds env scope where
  made := by
    obtain ⟨frame, isFrame⟩ := Option.isSome_iff_exists.mp binds.made
    obtain ⟨later, isLater, -, -⟩ := grows env frame isFrame
    rw [isLater, Option.isSome_some]
  found name inScope := grows.resolve env name (binds.found name inScope)

theorem subset (binds : heap.Binds env scope) {names : List String}
    (inScope : ∀ name ∈ names, name ∈ scope) : heap.Binds env names :=
  ⟨binds.made, fun name isName => binds.found name (inScope name isName)⟩

/-- A name that has been bound is found. -/
theorem define (binds : heap.Binds env scope) (name : String) (value : Value) :
    (heap.define env name value).Binds env (name :: scope) := by
  have grown := binds.grow (.define heap env name value)
  refine ⟨grown.made, fun other isOther => ?_⟩
  rcases List.mem_cons.mp isOther with rfl | inScope
  · obtain ⟨frame, isFrame⟩ := Option.isSome_iff_exists.mp binds.made
    have defined := (frame?_define isFrame other value env).trans (if_pos rfl)
    rw [resolve, defined]
    simp
  · exact grown.found other inScope

theorem defineAll (binds : heap.Binds env scope) {names : List String} {values : List Value}
    (fits : names.length = values.length) :
    (heap.defineAll env (names.zip values)).Binds env (names ++ scope) := by
  induction names generalizing heap values scope with
  | nil => exact binds
  | cons name names ih =>
      cases values with
      | nil => cases fits
      | cons value values =>
          apply (ih (binds.define name value) (Nat.succ.inj fits)).subset
          intro other isOther
          simp only [List.cons_append, List.mem_cons, List.mem_append] at isOther ⊢
          exact or_left_comm.mp isOther

/-- From a new frame inside another, what is found from there is found. -/
theorem alloc (binds : heap.Binds env scope) :
    (heap.alloc (some env)).2.Binds (heap.alloc (some env)).1 scope := by
  obtain ⟨frame, isFrame⟩ := Option.isSome_iff_exists.mp binds.made
  have older : env.index < heap.frames.size := (Array.getElem?_eq_some_iff.mp isFrame).1
  have isFresh : (heap.alloc (some env)).2.frame? (heap.alloc (some env)).1 =
      some ⟨.empty, some env⟩ := (heap.frame?_push ⟨.empty, some env⟩ _).trans (if_pos rfl)
  refine ⟨by rw [isFresh, Option.isSome_some], fun name inScope => ?_⟩
  have around := (binds.grow (.alloc heap (some env))).found name inScope
  rw [resolve, isFresh]
  simpa [Heap.alloc, older] using around

end Binds

end Heap

/-! ## Functions whose names are found -/

/-- A function whose body finds its names: beside the parameters it counts on a scope that its
home binds. -/
def Closure.Bound (heap : Heap) (closure : Closure) : Prop :=
  ∃ scope, Stmt.listBound (closure.parameters ++ scope) closure.body = true ∧
    heap.Binds closure.home scope

/-- A value that is such a function if it is one at all. -/
def Value.Bound (heap : Heap) : Value → Prop
  | .function closure => closure.Bound heap
  | _ => True

theorem Value.Bound.grow {before after : Heap} {value : Value} (bound : value.Bound before)
    (grows : before.Grows after) : value.Bound after := by
  cases value with
  | function closure =>
      obtain ⟨scope, isBound, binds⟩ := bound
      exact ⟨scope, isBound, binds.grow grows⟩
  | _ => trivial

namespace Heap

/-- A heap in which every function that is bound finds its names. -/
def Bound (heap : Heap) : Prop :=
  ∀ id frame name value, heap.frame? id = some frame → frame.bindings.find? name = some value →
    value.Bound heap

namespace Bound

variable {heap : Heap} (bound : heap.Bound)

include bound

theorem resolve {env : FrameId} {name : String} {value : Value}
    (found : heap.resolve env name = some value) : value.Bound heap := by
  fun_induction Heap.resolve heap env name with
  | case1 env gone => cases found
  | case2 env frame isFrame value isBound =>
      cases found
      exact bound env frame name value isFrame isBound
  | case3 env frame isFrame unbound outermost => cases found
  | case4 env frame isFrame unbound outer isOuter older ih => exact ih found
  | case5 env frame isFrame unbound outer isOuter younger => cases found

theorem alloc (outer : Option FrameId) : (heap.alloc outer).2.Bound := by
  intro id frame name value isFrame isBound
  rw [show (heap.alloc outer).2.frame? id = _ from heap.frame?_push ⟨.empty, outer⟩ id] at isFrame
  split at isFrame
  · cases isFrame
    cases isBound
  · exact (bound id frame name value isFrame isBound).grow (.alloc heap outer)

/-- The value needs the promise only where it has been bound: it may count on its name. -/
theorem define {env : FrameId} {name : String} {value : Value}
    (isBound : value.Bound (heap.define env name value)) : (heap.define env name value).Bound := by
  have grows := Grows.define heap env name value
  intro id frame other found isFrame isFound
  cases isEnv : heap.frame? env with
  | none =>
      rw [Heap.define, isEnv] at isFrame
      exact (bound id frame other found isFrame isFound).grow grows
  | some here =>
      rw [frame?_define isEnv] at isFrame
      split at isFrame
      · cases isFrame
        by_cases sameName : other = name
        · rw [sameName, Bindings.find?_insert_self] at isFound
          cases isFound
          exact isBound
        · rw [Bindings.find?_insert_of_ne _ _ sameName] at isFound
          exact (bound env here other found isEnv isFound).grow grows
      · exact (bound id frame other found isFrame isFound).grow grows

theorem defineAll {env : FrameId} {bindings : List (String × Value)}
    (allBound : ∀ binding ∈ bindings, binding.2.Bound heap) :
    (heap.defineAll env bindings).Bound ∧ heap.Grows (heap.defineAll env bindings) := by
  induction bindings generalizing heap with
  | nil => exact ⟨bound, .refl heap⟩
  | cons binding bindings ih =>
      have grows := Grows.define heap env binding.1 binding.2
      have isBound := (allBound binding List.mem_cons_self).grow grows
      have othersBound : ∀ other ∈ bindings,
          other.2.Bound (heap.define env binding.1 binding.2) :=
        fun other isOther => (allBound other (List.mem_cons_of_mem _ isOther)).grow grows
      obtain ⟨boundAfter, growsOn⟩ := ih (bound.define isBound) othersBound
      exact ⟨boundAfter, grows.trans growsOn⟩

end Bound

end Heap

end Ideal

end Monkey
