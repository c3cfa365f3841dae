/-
# Runs that differ in the names inside a literal

A program is run beside the one that has other names inside a literal. The stores of the two
are alike at every step: the second is the first with other names in the frames of calls inside
the literal. Which frames these are is known of every frame that is held by the evaluations
around the step; an evaluation that has ended may have made others, and of those no more has to
be known. Each of the actions that evaluation is made of goes from stores that are alike to
stores that are alike.
-/

import Mathlib
import Monkey.Proofs.Renaming.Lexical

namespace Monkey

/-! ## Operators -/

section

variable (r : SafeRenaming)

/-- Functions of one origin are still of one origin. -/
theorem Closure.sameOrigin_rename (first second : Closure) :
    (first.rename r).sameOrigin (second.rename r) = first.sameOrigin second := by
  by_cases same : first.site = second.site
  · have parameters : ((first.rename r).parameters == (second.rename r).parameters) =
        (first.parameters == second.parameters) := by
      rw [Bool.eq_iff_iff, beq_iff_eq, beq_iff_eq, Closure.rename, Closure.rename, same]
      exact (r.name_injective (r.covers second.site)).list_map.eq_iff
    rw [sameOrigin, sameOrigin, parameters]
    rfl
  · have different : (first.site == second.site) = false := beq_false_of_ne same
    have different' : ((first.rename r).site == (second.rename r).site) = false := different
    rw [sameOrigin, sameOrigin, different, different']
    simp

theorem Value.same_rename (left right : Value) :
    (left.rename r).same (right.rename r) = left.same right := by
  cases left with
  | function first =>
      cases right with
      | function second => exact first.sameOrigin_rename r second
      | _ => rfl
  | _ => cases right <;> rfl

theorem PrefixOp.apply_rename (op : PrefixOp) (operand : Value) :
    op.apply (operand.rename r) = op.apply operand := by
  cases op with
  | bang => rw [apply, apply, Value.truthy_rename]
  | minus => cases operand <;> rfl

/-- Operators see nothing of names. -/
theorem InfixOp.apply_rename (op : InfixOp) (left right : Value) :
    op.apply (left.rename r) (right.rename r) = op.apply left right := by
  have same := left.same_rename r right
  cases left with
  | function first =>
      cases right with
      | function second =>
          cases op with
          | equal => exact congrArg (fun answer => Except.ok (Value.bool answer)) same
          | notEqual => exact congrArg (fun answer => Except.ok (Value.bool !answer)) same
          | _ => rfl
      | _ => rfl
  | _ => cases right <;> rfl

end

/-! ## Runs side by side -/

section

variable (r : SafeRenaming)

/-- A signal of the changed program. -/
def Signal.rename : Signal → Signal
  | .returned value => .returned (value.rename r)
  | .failed fault => .failed fault
  | .tooDeep => .tooDeep

/-- The second store is the first with other names inside the literal. Of the frames that are held
it is known whether they are inside. -/
def Store.Alike (known : FrameId → Bool) (held : List Hold) (store store' : Store) : Prop :=
  ∃ inside, store.Lexical r inside held ∧
    (∀ env, Hold.scope env ∈ held → inside env = known env) ∧ store' = store.rename r inside

/-- Two evaluations have ended alike. -/
inductive Eval.EndsAlike {α : Type} (known : FrameId → Bool) (held : List Hold)
    (gained : α → List Hold) (change : α → α) :
    EStateM.Result Signal Store α → EStateM.Result Signal Store α → Prop
  | value (result : α) {store store' : Store}
    (alike : store.Alike r known (gained result ++ held) store') :
    EndsAlike known held gained change (.ok result store) (.ok (change result) store')
  | signal (signal : Signal) {store store' : Store}
    (alike : store.Alike r known (signal.holds ++ held) store') :
    EndsAlike known held gained change (.error signal store) (.error (signal.rename r) store')

/-- Started from stores that are alike, the two evaluations end alike. -/
def Eval.Alike {α : Type} (known : FrameId → Bool) (held given : List Hold) (first second : Eval α)
    (gained : α → List Hold) (change : α → α) : Prop :=
  ∀ store store', store.Alike r known (given ++ held) store' →
    Eval.EndsAlike r known held gained change (first store) (second store')

end

variable {r : SafeRenaming} {known : FrameId → Bool} {held : List Hold}

namespace Store.Alike

variable {store store' : Store}

theorem balanced (alike : store.Alike r known held store') : store.Balanced held := by
  obtain ⟨inside, lexical, -, -⟩ := alike
  exact lexical.balanced

theorem isLive (alike : store.Alike r known held store') (id : FrameId) :
    store'.isLive id = store.isLive id := by
  obtain ⟨inside, -, -, rfl⟩ := alike
  exact store.isLive_rename r inside id

/-- The next call is made in a frame of the same name. -/
theorem callFrame (alike : store.Alike r known held store') :
    Closure.callFrame store' = Closure.callFrame store := by
  obtain ⟨inside, -, -, rfl⟩ := alike
  exact congrArg FrameId.mk (store.size_rename r inside)

theorem notMem_callFrame {given : List Hold}
    (alike : store.Alike r known (given ++ held) store') :
    Hold.scope (Closure.callFrame store) ∉ held := by
  intro isHeld
  have live := isLive_of_mem_held alike.balanced (List.mem_append_right given isHeld)
    (List.mem_singleton.mpr rfl)
  exact Nat.lt_irrefl _ (index_lt_of_isLive live)

/-- Functions that are held are made by literals of the program. -/
theorem code {closure : Closure} (alike : store.Alike r known held store')
    (isHeld : Hold.value (.function closure) ∈ held) :
    (Expr.fn closure.parameters closure.body).Every (fun _ => True) r.occurs ∧
      r.literal.Placed closure.site
        ((Expr.fn closure.parameters closure.body).literals closure.site) := by
  obtain ⟨inside, lexical, -, -⟩ := alike
  obtain ⟨-, -, names, placed⟩ := lexical.inHand (.function closure) isHeld
  exact ⟨names, placed⟩

theorem perm (alike : store.Alike r known held store') {other : List Hold}
    (same : held.Perm other) : store.Alike r known other store' := by
  obtain ⟨inside, lexical, scopes, isSecond⟩ := alike
  exact ⟨inside, lexical.perm same, fun env isHeld => scopes env (same.mem_iff.mpr isHeld),
    isSecond⟩

theorem plain (alike : store.Alike r known held store') {value : Value}
    (plain : value.kind ≠ .function) : store.Alike r known (.value value :: held) store' := by
  obtain ⟨inside, lexical, scopes, isSecond⟩ := alike
  refine ⟨inside, lexical.plain plain, fun env isHeld => scopes env ?_, isSecond⟩
  exact (List.mem_cons.mp isHeld).resolve_left nofun

theorem drop {hold : Hold} (alike : store.Alike r known (hold :: held) store') :
    (store.release hold.frames).Alike r known held (store'.release hold.frames) := by
  obtain ⟨inside, lexical, scopes, rfl⟩ := alike
  exact ⟨inside, lexical.drop, fun env isHeld => scopes env (List.mem_cons_of_mem _ isHeld),
    store.release_rename r inside _⟩

/-- A value in hand can be given up on both sides. -/
theorem dropValue {value : Value} (alike : store.Alike r known (.value value :: held) store') :
    (store.release value.captured).Alike r known held
      (store'.release (value.rename r).captured) := by
  rw [Value.captured_rename]
  exact alike.drop

theorem dropAll {values : List Value}
    (alike : store.Alike r known (Hold.values values ++ held) store') :
    (store.release (values.flatMap Value.captured)).Alike r known held
      (store'.release ((values.map (Value.rename r)).flatMap Value.captured)) := by
  induction values generalizing store store' with
  | nil => simpa [Store.release] using alike
  | cons value values ih =>
      rw [List.map_cons, List.flatMap_cons, List.flatMap_cons, release_append, release_append]
      exact ih alike.dropValue

theorem found (alike : store.Alike r known held store') {env : FrameId}
    (inScope : Hold.scope env ∈ held) {name : String} {value : Value}
    (found : store.resolve env name = some value) :
    (store.retain value.captured).Alike r known (.value value :: held)
      (store'.retain (value.rename r).captured) := by
  obtain ⟨inside, lexical, scopes, rfl⟩ := alike
  refine ⟨inside, lexical.found inScope found, fun env isHeld => scopes env ?_, ?_⟩
  · exact (List.mem_cons.mp isHeld).resolve_left nofun
  · rw [Value.captured_rename, retain_rename]

theorem bindName {env : FrameId} {value : Value}
    (alike : store.Alike r known (.value value :: held) store') (inScope : Hold.scope env ∈ held)
    (name : String) :
    ((store.retain value.captured).define env name value).Alike r known (.value value :: held)
      ((store'.retain (value.rename r).captured).define env (r.name (known env) name)
        (value.rename r)) := by
  obtain ⟨inside, lexical, scopes, rfl⟩ := alike
  have inScope' := List.mem_cons_of_mem (Hold.value value) inScope
  refine ⟨inside, lexical.copy.define inScope' name, scopes, ?_⟩
  rw [Value.captured_rename, retain_rename, ← scopes env inScope', define_rename]

/-- A call enters frames that are alike, and knows whether its own is inside. -/
theorem enterCall {closure : Closure} {arguments : List Value}
    (alike : store.Alike r known (Hold.values arguments ++ held) store')
    (isHeld : Hold.value (.function closure) ∈ held)
    (fits : closure.parameters.length = arguments.length)
    (live : store.isLive closure.home = true) :
    (closure.entered arguments store).Alike r
      (Function.update known (Closure.callFrame store) (r.covers closure.site))
      (.scope (Closure.callFrame store) :: held)
      ((closure.rename r).entered (arguments.map (Value.rename r)) store') := by
  obtain ⟨inside, lexical, scopes, rfl⟩ := alike
  refine ⟨_, lexical.enterCall isHeld fits live, fun env isScope => ?_,
    Lexical.entered_rename closure arguments⟩
  by_cases same : env = Closure.callFrame store
  · rw [same, Lexical.enter_self, Function.update_self]
  · rw [Lexical.enter, Function.update_of_ne same, Function.update_of_ne same]
    refine scopes env (List.mem_append_right _ ((List.mem_cons.mp isScope).resolve_left ?_))
    rintro ⟨⟩
    exact same rfl

end Store.Alike

namespace Eval

open Store.Alike

variable {α β : Type}

namespace Alike

/-! ## Plain steps -/

theorem value (gained : α → List Hold) (result : α) (change : α → α) :
    Eval.Alike r known held (gained result) (pure result) (pure (change result)) gained change :=
  fun _ _ alike => .value result alike

theorem signal (signal : Signal) (gained : α → List Hold) (change : α → α) :
    Eval.Alike r known held signal.holds (throw signal) (throw (signal.rename r)) gained change :=
  fun _ _ alike => .signal signal alike

theorem bind {given : List Hold} {first first' : Eval α} {middle : α → List Hold}
    {changeFirst : α → α} {second second' : α → Eval β} {gained : β → List Hold}
    {change : β → β} (isFirst : Eval.Alike r known held given first first' middle changeFirst)
    (isSecond : ∀ result, Eval.Alike r known held (middle result) (second result)
      (second' (changeFirst result)) gained change) :
    Eval.Alike r known held given (first >>= second) (first' >>= second') gained change := by
  intro store store' alike
  have ended := isFirst store store' alike
  show EndsAlike r known held gained change (EStateM.bind first second store)
    (EStateM.bind first' second' store')
  unfold EStateM.bind
  generalize first store = reached at ended ⊢
  generalize first' store' = reached' at ended ⊢
  cases ended with
  | value result alike => exact isSecond result _ _ alike
  | signal signal alike => exact .signal signal alike

/-! ## Values in hand -/

/-- A value that was in hand before is given up when something stops an evaluation. -/
theorem stopped {value : Value} {store store' : Store} (gained : α → List Hold) (change : α → α)
    (signal : Signal) (alike : store.Alike r known (signal.holds ++ .value value :: held) store') :
    EndsAlike r known held gained change (.error signal (store.release value.captured))
      (.error (signal.rename r) (store'.release (value.rename r).captured)) :=
  .signal signal (alike.perm List.perm_middle).dropValue

theorem holding {value : Value} {inner inner' : Eval α} {gained : α → List Hold}
    {change : α → α}
    (isInner : Eval.Alike r known (.value value :: held) [] inner inner' gained change) :
    Eval.Alike r known held [.value value] (Eval.holding value inner)
      (Eval.holding (value.rename r) inner') gained change := by
  intro store store' alike
  have ended := isInner store store' alike
  unfold Eval.holding
  generalize inner store = reached at ended ⊢
  generalize inner' store' = reached' at ended ⊢
  cases ended with
  | value result alike => exact .value result (alike.perm List.perm_middle).dropValue
  | signal signal alike => exact stopped gained change signal alike

theorem keeping {value : Value} {inner inner' : Eval α} {gained : α → List Hold}
    {change : α → α}
    (isInner : Eval.Alike r known (.value value :: held) [] inner inner' gained change) :
    Eval.Alike r known held [.value value] (Eval.keeping value inner)
      (Eval.keeping (value.rename r) inner') (fun result => .value value :: gained result)
      change := by
  intro store store' alike
  have ended := isInner store store' alike
  unfold Eval.keeping
  generalize inner store = reached at ended ⊢
  generalize inner' store' = reached' at ended ⊢
  cases ended with
  | value result alike => exact .value result (alike.perm List.perm_middle)
  | signal signal alike => exact stopped _ change signal alike

theorem lookup {env : FrameId} (inScope : Hold.scope env ∈ held) {name : String}
    (isName : r.occurs name) :
    Eval.Alike r known held [] (Eval.lookup env name) (Eval.lookup env (r.name (known env) name))
      (fun value => [.value value]) (Value.rename r) := by
  intro store store' alike
  have alike' := alike
  obtain ⟨inside, lexical, scopes, rfl⟩ := alike
  have live := Store.isLive_of_mem_held lexical.balanced inScope (List.mem_singleton.mpr rfl)
  rw [← scopes env inScope, lookup_apply, lookup_apply, lexical.resolve_rename live isName]
  cases isFound : store.resolve env name with
  | some value => exact .value value (alike'.found inScope isFound)
  | none =>
      rw [lexical.name_of_unresolved live isName isFound]
      exact .signal (.failed (.unknownIdentifier name)) alike'

theorem bindName {env : FrameId} (inScope : Hold.scope env ∈ held) (name : String)
    (value : Value) :
    Eval.Alike r known held [.value value] (Eval.bind env name value)
      (Eval.bind env (r.name (known env) name) (value.rename r)) (fun _ => [.value value]) id :=
  fun _ _ alike => .value () (alike.bindName inScope name)

/-- Values that are no functions are what they were. -/
theorem plain {value : Value} (plain : value.kind ≠ .function) :
    Eval.Alike r known held [] (pure value) (pure value) (fun value => [.value value])
      (Value.rename r) := by
  intro store store' alike
  have ended : EndsAlike r known held (fun value => [.value value]) (Value.rename r)
      (.ok value store) (.ok (value.rename r) store') := .value value (alike.plain plain)
  rwa [Value.rename_of_kind r plain] at ended

theorem ofExcept {outcome : Except Fault Value}
    (plain : ∀ value, outcome = .ok value → value.kind ≠ .function) :
    Eval.Alike r known held [] (Eval.ofExcept outcome) (Eval.ofExcept outcome)
      (fun value => [.value value]) (Value.rename r) := by
  cases outcome with
  | ok value => exact .plain (plain value rfl)
  | error fault => exact .signal (.failed fault) _ _

/-- Blocks start with null in hand, which takes no hold. -/
theorem startNull {first second : Eval α} {gained : α → List Hold} {change : α → α}
    (alike : Eval.Alike r known held [.value .null] first second gained change) :
    Eval.Alike r known held [] first second gained change :=
  fun store store' given => alike store store' (given.plain (by simp [Value.kind]))

/-- A literal makes functions that differ as the literal does. -/
theorem literal {env : FrameId} (inScope : Hold.scope env ∈ held) {site : Site}
    (isKnown : known env = r.surrounds site) {parameters : List String} {body : Block}
    (names : (Expr.fn parameters body).Every (fun _ => True) r.occurs)
    (placed : r.literal.Placed site ((Expr.fn parameters body).literals site)) :
    Eval.Alike r known held [] (pure (.function ⟨parameters, body, site, env, []⟩))
      (pure (Value.rename r (.function ⟨parameters, body, site, env, []⟩)))
      (fun value => [.value value]) (Value.rename r) := by
  intro store store' alike
  obtain ⟨inside, lexical, scopes, isSecond⟩ := alike
  have live := Store.isLive_of_mem_held lexical.balanced inScope (List.mem_singleton.mpr rfl)
  have fits : Closure.Fits r inside store.cells.size ⟨parameters, body, site, env, []⟩ :=
    ⟨Store.index_lt_of_isLive live, (scopes env inScope).trans isKnown, names, placed⟩
  refine .value _ ⟨inside, lexical.literal rfl fits, fun other isHeld => scopes other ?_, isSecond⟩
  exact (List.mem_cons.mp isHeld).resolve_left nofun

/-! ## Calls -/

theorem inFrame {frame : FrameId} {body body' : Eval Value}
    (isBody : Eval.Alike r known (.scope frame :: held) [] body body'
      (fun value => [.value value]) (Value.rename r)) :
    Eval.Alike r known held [.scope frame] (Eval.inFrame frame body) (Eval.inFrame frame body')
      (fun value => [.value value]) (Value.rename r) := by
  have leaving (value : Value) {store store' : Store}
      (alike : store.Alike r known (.value value :: .scope frame :: held) store') :
      EndsAlike r known held (fun value => [.value value]) (Value.rename r)
        (Eval.inFrame.leave frame value store)
        (Eval.inFrame.leave frame (value.rename r) store') := by
    cases value with
    | function closure =>
        obtain ⟨inside, lexical, scopes, isSecond⟩ := alike
        refine .value (Value.function (closure.returnedFrom frame))
          ⟨inside, lexical.leave, fun env isHeld => scopes env ?_, isSecond⟩
        rcases List.mem_cons.mp isHeld with ⟨⟨⟩⟩ | isHeld
        exact List.mem_cons_of_mem _ (List.mem_cons_of_mem _ isHeld)
    | _ => exact .value _ (alike.perm (List.Perm.swap _ _ _)).drop
  intro store store' alike
  have ended := isBody store store' alike
  unfold Eval.inFrame
  generalize body store = reached at ended ⊢
  generalize body' store' = reached' at ended ⊢
  cases ended with
  | value result alike => exact leaving result alike
  | signal signal alike =>
      cases signal with
      | returned value => exact leaving value alike
      | failed fault => exact .signal (.failed fault) alike.drop
      | tooDeep => exact .signal .tooDeep alike.drop

/-- What is known of the frame of a call is forgotten when the call has ended. -/
theorem forget {gained : α → List Hold} {change : α → α} {fresh : FrameId}
    {isInside : Bool} {reached reached' : EStateM.Result Signal Store α}
    (ended : EndsAlike r (Function.update known fresh isInside) held gained change reached reached')
    (isFresh : Hold.scope fresh ∉ held)
    (scopes : ∀ result env, Hold.scope env ∉ gained result) :
    EndsAlike r known held gained change reached reached' := by
  have same {own : List Hold} (noScope : ∀ env, Hold.scope env ∉ own) {store store' : Store}
      (alike : store.Alike r (Function.update known fresh isInside) (own ++ held) store') :
      store.Alike r known (own ++ held) store' := by
    obtain ⟨inside, lexical, scopes, isSecond⟩ := alike
    refine ⟨inside, lexical, fun env isHeld => ?_, isSecond⟩
    rw [scopes env isHeld, Function.update_of_ne]
    rintro rfl
    exact (List.mem_append.mp isHeld).elim (noScope _) isFresh
  cases ended with
  | value result alike => exact .value result (same (scopes result) alike)
  | signal signal alike =>
      refine .signal signal (same ?_ alike)
      cases signal <;> simp [Signal.holds]

end Alike

end Eval

end Monkey
