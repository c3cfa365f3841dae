/-
# Where functions can be called

A function can be called for as long as its home is live, and does not keep it alive. But
the frame in which the function is in hand does, if its home is on the chain of that frame,
and so do the frames that the function has captured, if its home is on the chain of one of
these. One of the two is the case wherever a function is made, found, bound or returned. Only
where functions are passed as arguments is there nothing to make sure of it.

So it is made a condition on calls, which says that each function passed to a call has its
home on one of these chains in the frame of that call. Under this condition no call is ever
made of a function whose home is gone.
-/

import Monkey.Proofs.Eval.Released
import Monkey.Proofs.Store.Chains

namespace Monkey

/-- The frame on top of which something is held. Values on top of it are in hand there. -/
def Hold.innermost : List Hold → Option FrameId
  | [] => none
  | .scope frame :: _ => some frame
  | .value _ :: held => innermost held

/-- The home of a function is on the chain of the frame around it, or on the chain of a frame
that the function has captured. -/
def Closure.Sheltered (store : Store) (around : Option FrameId) (closure : Closure) : Prop :=
  (∃ env, around = some env ∧ store.OnChain env closure.home) ∨
    ∃ frame ∈ closure.captured, store.OnChain frame closure.home

/-- If the value is a function, its home is on one of these chains. -/
def Value.Sheltered (store : Store) (around : Option FrameId) (value : Value) : Prop :=
  ∀ closure, value = .function closure → closure.Sheltered store around

/-- The functions that a call is given are sheltered in the frame of the call, which lies inside
the home of the function that is called. A call that does not pass its checks has no frame. -/
def Call.Shelters (made : Call) : Prop :=
  made.closure.parameters.length = made.arguments.length →
  made.store.isLive made.closure.home = true →
  ∀ argument ∈ made.arguments,
    argument.Sheltered (made.store.alloc (some made.closure.home)).2
      (some (Closure.callFrame made.store))

/-- Each value that is held is sheltered in the frame on top of which it is held. -/
def Hold.Sheltered (store : Store) : List Hold → Prop
  | [] => True
  | .scope _ :: held => Sheltered store held
  | .value item :: held => item.Sheltered store (innermost held) ∧ Sheltered store held

/-- Each bound value is sheltered in the frame in which it is bound. -/
def Store.Sheltering (store : Store) : Prop :=
  ∀ id contents, store.contents? id = some contents →
    ∀ value ∈ contents.bindings.items, value.Sheltered store (some id)

/-- The accounts are right, and all values are sheltered, held or bound. -/
structure Store.Shelters (held : List Hold) (store : Store) : Prop where
  balanced : store.Balanced held
  bound : store.Sheltering
  inHand : Hold.Sheltered store held

/-! ## Shelter -/

namespace Value

theorem sheltered_of_plain {store : Store} {around : Option FrameId} {value : Value}
    (plain : value.kind ≠ .function) : value.Sheltered store around := by
  rintro closure rfl
  exact absurd rfl plain

/-- What is sheltered in a frame is sheltered in those that lie inside it. -/
theorem Sheltered.inner {store : Store} {env holder : FrameId} {value : Value}
    (sheltered : value.Sheltered store (some holder)) (onChain : store.OnChain env holder) :
    value.Sheltered store (some env) := by
  intro closure isFunction
  rcases sheltered closure isFunction with ⟨_, ⟨⟩, byHolder⟩ | byCapture
  · exact Or.inl ⟨env, rfl, onChain.trans byHolder⟩
  · exact Or.inr byCapture

/-- A function that is returned captures the frame of the call, and is sheltered everywhere. -/
theorem Sheltered.returned {store : Store} {frame : FrameId} {closure : Closure}
    (sheltered : Value.Sheltered store (some frame) (.function closure))
    (around : Option FrameId) :
    Value.Sheltered store around (.function (closure.returnedFrom frame)) := by
  rintro _ ⟨⟩
  right
  rcases sheltered closure rfl with ⟨_, ⟨⟩, byFrame⟩ | ⟨captured, isCaptured, byCapture⟩
  · exact ⟨frame, List.mem_append_right _ (List.mem_singleton.mpr rfl), byFrame⟩
  · exact ⟨captured, List.mem_append_left _ isCaptured, byCapture⟩

/-- Shelter lasts for as long as the frames that give it. -/
theorem Sheltered.evolves {before after : Store} {held heldAfter : List FrameId}
    {around : Option FrameId} {value : Value} (sheltered : value.Sheltered before around)
    (evolves : before.EvolvesTo after) (accounted : before.Accounted held)
    (accountedAfter : after.Accounted heldAfter)
    (live : ∀ id, id ∈ around ∨ id ∈ value.captured →
      before.isLive id = true ∧ after.isLive id = true) :
    value.Sheltered after around := by
  have lasts (id home : FrameId) (isShelter : id ∈ around ∨ id ∈ value.captured)
      (onChain : before.OnChain id home) : after.OnChain id home :=
    evolves.onChain accounted accountedAfter (live id isShelter).1 (live id isShelter).2 onChain
  rintro closure rfl
  rcases sheltered closure rfl with ⟨env, isAround, byFrame⟩ | ⟨frame, isCaptured, byCapture⟩
  · exact Or.inl ⟨env, isAround, lasts _ _ (Or.inl isAround) byFrame⟩
  · exact Or.inr ⟨frame, isCaptured, lasts _ _ (Or.inr isCaptured) byCapture⟩

end Value

namespace Hold

theorem mem_of_innermost {held : List Hold} {env : FrameId} (inside : innermost held = some env) :
    .scope env ∈ held := by
  induction held with
  | nil => cases inside
  | cons hold held ih =>
      cases hold with
      | scope frame =>
          cases inside
          exact List.mem_cons_self
      | value value => exact List.mem_cons_of_mem _ (ih inside)

theorem innermost_values (values : List Value) (held : List Hold) :
    innermost (Hold.values values ++ held) = innermost held := by
  induction values with
  | nil => rfl
  | cons value values ih => exact ih

theorem sheltered_values {store : Store} {values : List Value} {held : List Hold} :
    Hold.Sheltered store (Hold.values values ++ held) ↔
      (∀ value ∈ values, value.Sheltered store (innermost held)) ∧ Hold.Sheltered store held := by
  induction values with
  | nil => simp
  | cons value values ih =>
      simp only [values_cons, List.cons_append, Sheltered, ih, innermost_values,
        List.forall_mem_cons, and_assoc]

theorem Sheltered.tail {store : Store} {hold : Hold} {held : List Hold}
    (sheltered : Hold.Sheltered store (hold :: held)) : Hold.Sheltered store held := by
  cases hold with
  | scope frame => exact sheltered
  | value value => exact sheltered.2

/-- Held values stay sheltered for as long as they are held, with the frame around them. -/
theorem Sheltered.evolves {before after : Store} {held some someAfter : List Hold}
    (sheltered : Hold.Sheltered before held) (evolves : before.EvolvesTo after)
    (balanced : before.Balanced some) (balancedAfter : after.Balanced someAfter)
    (stays : ∀ hold ∈ held, hold ∈ some ∧ hold ∈ someAfter) :
    Hold.Sheltered after held := by
  induction held with
  | nil => trivial
  | cons hold held ih =>
      obtain ⟨here, there⟩ := List.forall_mem_cons.mp stays
      cases hold with
      | scope frame => exact ih sheltered there
      | value value =>
          refine ⟨sheltered.1.evolves evolves balanced balancedAfter ?_, ih sheltered.2 there⟩
          rintro id (isAround | isCaptured)
          · have isHeld := there _ (mem_of_innermost isAround)
            exact ⟨Store.isLive_of_mem_held balanced isHeld.1 List.mem_cons_self,
              Store.isLive_of_mem_held balancedAfter isHeld.2 List.mem_cons_self⟩
          · exact ⟨Store.isLive_of_mem_held balanced here.1 isCaptured,
              Store.isLive_of_mem_held balancedAfter here.2 isCaptured⟩

end Hold

/-- Bound values stay sheltered if each is either bound where it was before or sheltered anew. -/
theorem Store.Sheltering.evolves {before after : Store} {held heldAfter : List FrameId}
    (sheltering : before.Sheltering) (evolves : before.EvolvesTo after)
    (accounted : before.Accounted held) (accountedAfter : after.Accounted heldAfter)
    (sources : ∀ id contents value, after.contents? id = some contents →
      value ∈ contents.bindings.items →
      value.Sheltered after (some id) ∨
        ∃ earlier, before.contents? id = some earlier ∧ value ∈ earlier.bindings.items) :
    after.Sheltering := by
  intro id contents isContents value isBound
  rcases sources id contents value isContents isBound with anew | ⟨earlier, isEarlier, wasBound⟩
  · exact anew
  · refine (sheltering id earlier isEarlier value wasBound).evolves evolves accounted
      accountedAfter ?_
    rintro other (⟨⟨⟩⟩ | isCaptured)
    · rw [isLive_eq_contents?, isLive_eq_contents?, isEarlier, isContents]
      exact ⟨rfl, rfl⟩
    · exact ⟨accounted.isLive_of_bound isEarlier wasBound isCaptured,
        accountedAfter.isLive_of_bound isContents isBound isCaptured⟩

/-- Nothing is bound in a new frame. -/
theorem Store.Sheltering.alloc {store : Store} {outer : Option FrameId}
    {held heldAfter : List FrameId} (sheltering : store.Sheltering)
    (accounted : store.Accounted held) (accountedAfter : (store.alloc outer).2.Accounted heldAfter) :
    (store.alloc outer).2.Sheltering := by
  refine sheltering.evolves (.alloc store outer) accounted accountedAfter
    fun id contents item isContents isBound => Or.inr ?_
  rcases contents?_of_alloc isContents with ⟨-, rfl⟩ | isEarlier
  · cases isBound
  · exact ⟨contents, isEarlier, isBound⟩

theorem Store.sheltering_empty : empty.Sheltering := by
  intro id contents isContents
  simp [contents?, frame?, empty] at isContents

/-! ## Steps -/

open Eval

namespace Store.Shelters

variable {held : List Hold} {store : Store}

/-- Taking and giving up holds changes no bindings. -/
theorem ofHolds {after : Store} {heldAfter : List Hold} (shelters : store.Shelters held)
    (evolves : store.EvolvesTo after)
    (same : ∀ id contents, after.contents? id = some contents →
      store.contents? id = some contents)
    (balanced : after.Balanced heldAfter) (inHand : Hold.Sheltered after heldAfter) :
    after.Shelters heldAfter where
  balanced := balanced
  bound := shelters.bound.evolves evolves shelters.balanced balanced
    fun id contents _ isContents isBound => Or.inr ⟨contents, same id contents isContents, isBound⟩
  inHand := inHand

theorem retain {heldAfter : List Hold} {ids : List FrameId} (shelters : store.Shelters held)
    (balanced : (store.retain ids).Balanced heldAfter)
    (inHand : Hold.Sheltered (store.retain ids) heldAfter) :
    (store.retain ids).Shelters heldAfter :=
  shelters.ofHolds (.retain store ids)
    (fun id _ isContents => (contents?_retain store ids id).symm.trans isContents) balanced inHand

/-- A hold is given up. -/
theorem drop {hold : Hold} (shelters : store.Shelters (hold :: held)) :
    (store.release hold.frames).Shelters held := by
  have evolves := EvolvesTo.release store hold.frames
  have balanced := balanced_invariant.drop shelters.balanced
  refine shelters.ofHolds evolves (fun _ _ => contents?_of_release) balanced ?_
  exact shelters.inHand.tail.evolves evolves shelters.balanced balanced
    fun other isHeld => ⟨List.mem_cons_of_mem _ isHeld, isHeld⟩

/-- A value is found on the chain of the frame, so it is sheltered there too. -/
theorem found {env : FrameId} {name : String} {value : Value} (shelters : store.Shelters held)
    (inside : Hold.innermost held = some env) (found : store.resolve env name = some value) :
    (store.retain value.captured).Shelters (.value value :: held) := by
  obtain ⟨holder, contents, onChain, isContents, isBound⟩ := exists_onChain_of_resolve found
  have sheltered := (shelters.bound holder contents isContents value isBound).inner onChain
  have inScope := Hold.mem_of_innermost inside
  have evolves := EvolvesTo.retain store value.captured
  have balanced := balanced_invariant.found shelters.balanced inScope found
  refine shelters.retain balanced ⟨?_, ?_⟩
  · rw [inside]
    refine sheltered.evolves evolves shelters.balanced balanced ?_
    intro id isShelter
    rw [isLive_retain, and_self]
    rcases isShelter with ⟨⟨⟩⟩ | isCaptured
    · exact isLive_of_mem_held shelters.balanced inScope List.mem_cons_self
    · exact shelters.balanced.isLive_of_bound isContents isBound isCaptured
  · exact shelters.inHand.evolves evolves shelters.balanced balanced
      fun hold isHeld => ⟨isHeld, List.mem_cons_of_mem _ isHeld⟩

theorem copy {value : Value} (shelters : store.Shelters (.value value :: held)) :
    (store.retain value.captured).Shelters (.value value :: .value value :: held) := by
  have balanced := balanced_invariant.copy shelters.balanced List.mem_cons_self
  refine shelters.retain balanced ?_
  refine Hold.Sheltered.evolves ⟨shelters.inHand.1, shelters.inHand⟩ (.retain store value.captured)
    shelters.balanced balanced fun hold isHeld => ⟨?_, isHeld⟩
  rcases List.mem_cons.mp isHeld with rfl | isHeld
  · exact List.mem_cons_self
  · exact isHeld

/-- A value is bound where it was in hand. -/
theorem define {env : FrameId} {value : Value} (shelters : store.Shelters (.value value :: held))
    (inside : Hold.innermost held = some env) (name : String) :
    (store.define env name value).Shelters held := by
  have inScope := Hold.mem_of_innermost inside
  have live := isLive_of_mem_held shelters.balanced (List.mem_cons_of_mem _ inScope)
    List.mem_cons_self
  have evolves := EvolvesTo.define live name value
  have balanced := balanced_invariant.define shelters.balanced inScope name
  refine ⟨balanced, ?_, ?_⟩
  · refine shelters.bound.evolves evolves shelters.balanced balanced
      fun id contents item isContents isBound => ?_
    obtain ⟨earlier, isEarlier, -, sources⟩ := contents?_of_define live isContents
    rcases sources item isBound with ⟨rfl, rfl⟩ | wasBound
    · left
      rw [← inside]
      refine shelters.inHand.1.evolves evolves shelters.balanced balanced ?_
      rintro other (isAround | isCaptured)
      · cases inside.symm.trans isAround
        exact ⟨live, isLive_of_contents? isContents⟩
      · exact ⟨isLive_of_mem_held shelters.balanced List.mem_cons_self isCaptured,
          balanced.isLive_of_bound isContents isBound isCaptured⟩
    · exact Or.inr ⟨earlier, isEarlier, wasBound⟩
  · exact shelters.inHand.2.evolves evolves shelters.balanced balanced
      fun hold isHeld => ⟨List.mem_cons_of_mem _ isHeld, isHeld⟩

/-- In the frame of a call the arguments are sheltered because the call makes sure of it. -/
theorem enter {closure : Closure} {arguments : List Value}
    (comply : Call.Shelters ⟨Hold.values arguments ++ .value (.function closure) :: held, store,
      closure, arguments⟩)
    (shelters : store.Shelters (Hold.values arguments ++ .value (.function closure) :: held))
    (fits : closure.parameters.length = arguments.length)
    (live : store.isLive closure.home = true) :
    (store.alloc (some closure.home)).2.Shelters (Hold.values arguments ++
      .scope (Closure.callFrame store) :: .value (.function closure) :: held) := by
  have evolves := EvolvesTo.alloc store (some closure.home)
  have isHeld : .value (.function closure) ∈
      Hold.values arguments ++ .value (.function closure) :: held :=
    List.mem_append_right _ List.mem_cons_self
  have balanced := balanced_invariant.perm
    (balanced_invariant.enter shelters.balanced isHeld live) List.perm_middle.symm
  have around := (Hold.sheltered_values.mp shelters.inHand).2
  refine ⟨balanced, shelters.bound.alloc shelters.balanced balanced,
    Hold.sheltered_values.mpr ⟨comply fits live, ?_⟩⟩
  exact around.evolves evolves shelters.balanced balanced fun hold isAround =>
    ⟨List.mem_append_right _ isAround, List.mem_append_right _ (List.mem_cons_of_mem _ isAround)⟩

end Store.Shelters

/-- Where all calls shelter what they are given, everything stays sheltered. -/
theorem Store.shelters_discipline :
    Discipline (fun env held => Hold.innermost held = some env) Call.Shelters
      fun held store => store.Shelters held where
  inHand inside _ := inside
  inFrame _ _ := rfl
  arrange {held store first second} shelters same := by
    obtain ⟨sheltered, around⟩ := Hold.sheltered_values.mp shelters.inHand
    refine ⟨?_, shelters.bound, Hold.sheltered_values.mpr ⟨fun value isSecond => ?_, around⟩⟩
    · exact balanced_invariant.perm shelters.balanced ((same.map Hold.value).append_right _)
    · exact sheltered value (same.mem_iff.mpr isSecond)
  plain shelters plain := ⟨balanced_invariant.plain shelters.balanced plain, shelters.bound,
    Value.sheltered_of_plain plain, shelters.inHand⟩
  literal {held store env} shelters inside parameters body site := by
    refine ⟨shelters.balanced, shelters.bound, ?_, shelters.inHand⟩
    rintro _ ⟨⟩
    exact Or.inl ⟨env, inside, .refl⟩
  found := Shelters.found
  copy := Shelters.copy
  drop := Shelters.drop
  define := Shelters.define
  enter := Shelters.enter
  handOver _ _ shelters := ⟨balanced_invariant.leave shelters.balanced, shelters.bound,
    shelters.inHand.1.returned _, shelters.inHand.2⟩

/-- A call can be made where its function is sheltered. -/
theorem Call.not_fails {made : Call} (latest : made.IsLatest)
    (shelters : made.store.Shelters made.held) : ¬ made.Fails := by
  obtain ⟨around, isHeld⟩ := latest
  have balanced := shelters.balanced
  have sheltered := shelters.inHand
  rw [isHeld] at balanced sheltered
  have live {hold : Hold} (isAround : hold ∈ .value (.function made.closure) :: around)
      {id : FrameId} (isFrame : id ∈ hold.frames) : made.store.isLive id = true :=
    Store.isLive_of_mem_held balanced (List.mem_append_right _ isAround) isFrame
  have isLive : made.store.isLive made.closure.home = true := by
    rcases (Hold.sheltered_values.mp sheltered).2.1 made.closure rfl with
      ⟨env, inside, byFrame⟩ | ⟨frame, isCaptured, byCapture⟩
    · have inScope := List.mem_cons_of_mem (.value (.function made.closure))
        (Hold.mem_of_innermost inside)
      exact balanced.isLive_of_onChain (live inScope List.mem_cons_self) byFrame
    · exact balanced.isLive_of_onChain (live List.mem_cons_self isCaptured) byCapture
  exact fun fails => Bool.false_ne_true (fails.2.symm.trans isLive)

/-! ## Sessions -/

/-- A program about to be run in a session, with the values that are still held from the programs
that were run before. -/
structure Run where
  session : Session
  kept : List Value
  depth : Nat
  program : Program

namespace Run

/-- How the run ends, and the session after it. -/
def ended (run : Run) : Outcome × Session := run.session.run run.depth run.program

/-- What is held around the run. -/
def held (run : Run) : List Hold := Hold.values run.kept ++ [.scope run.session.global]

/-- The calls that are made during the run. -/
def Makes (run : Run) (made : Call) : Prop :=
  run.program.Makes run.depth run.session.global run.held run.session.loaded run.session.store made

end Run

/-- A session in which these programs have been run one after the other, the last one first, and
in which these values are still held. A value may be given up at any time. -/
inductive Session.Ran : Session → List Value → List Run → Prop
  | start : Ran start [] []
  | run {session : Session} {kept : List Value} {runs : List Run} (earlier : Ran session kept runs)
    (depth : Nat) (program : Program) :
    Ran (session.run depth program).2 ((session.run depth program).1.value?.toList ++ kept)
      (⟨session, kept, depth, program⟩ :: runs)
  | giveUp {session : Session} {kept rest : List Value} {runs : List Run}
    (earlier : Ran session kept runs) (value : Value) (isKept : kept.Perm (value :: rest)) :
    Ran (session.giveUp (.value value)) rest runs

theorem Outcome.holds_eq (outcome : Outcome) :
    outcome.holds = Hold.values outcome.value?.toList := by
  cases outcome <;> rfl

/-- Between two programs everything is sheltered, if the calls so far have sheltered what they
were given, and no call of theirs has failed. -/
theorem Session.Ran.shelters {session : Session} {kept : List Value} {runs : List Run}
    (ran : session.Ran kept runs) (comply : ∀ run ∈ runs, ∀ made, run.Makes made → made.Shelters) :
    session.store.Shelters (Hold.values kept ++ [.scope session.global]) ∧
      ∀ run ∈ runs, ∀ made, run.Makes made → ¬ made.Fails := by
  induction ran with
  | start =>
      have balanced := Session.start_built.balanced
      exact ⟨⟨balanced, Store.sheltering_empty.alloc Store.Built.start.balanced balanced, trivial⟩,
        by simp⟩
  | @run session kept runs earlier depth program ih =>
      obtain ⟨complyNow, complied⟩ := List.forall_mem_cons.mp comply
      obtain ⟨shelters, sound⟩ := ih complied
      obtain ⟨ended, atCalls⟩ := Program.eval_keeps Store.shelters_discipline depth
        (Hold.innermost_values kept _) session.loaded program session.store shelters complyNow
      refine ⟨?_, List.forall_mem_cons.mpr ⟨fun made makes => ?_, sound⟩⟩
      · have isHeld (values : List Value) :
            Hold.values (values ++ kept) ++ [.scope session.global] =
              Hold.values values ++ (Hold.values kept ++ [.scope session.global]) := by
          simp [Hold.values]
        have outcome := ended.outcome
        rw [Outcome.holds_eq] at outcome
        exact (isHeld _).symm ▸ outcome
      · obtain ⟨latest, sheltersThere⟩ := atCalls made makes
        exact Call.not_fails latest sheltersThere
  | giveUp earlier value isKept ih =>
      obtain ⟨shelters, sound⟩ := ih comply
      have latest := Store.shelters_discipline.arrange shelters isKept
      exact ⟨Store.shelters_discipline.drop latest, sound⟩

/-- If the functions that calls are given are always sheltered in the frames of the calls, then
in no sequence of programs run in one session does any call fail because the home of its
function is gone. In particular none does if no call is given a function. -/
theorem Session.Ran.never_released {session : Session} {kept : List Value} {runs : List Run}
    (ran : session.Ran kept runs) :
    ((∀ run ∈ runs, ∀ made, run.Makes made → made.Shelters) →
      ∀ run ∈ runs, run.ended.1 ≠ .failed .releasedEnvironment ∧
        ∀ made, run.Makes made → ¬ made.Fails) ∧
    ((∀ run ∈ runs, ∀ made, run.Makes made →
        ∀ argument ∈ made.arguments, argument.kind ≠ .function) →
      ∀ run ∈ runs, run.ended.1 ≠ .failed .releasedEnvironment ∧
        ∀ made, run.Makes made → ¬ made.Fails) := by
  have sound (comply : ∀ run ∈ runs, ∀ made, run.Makes made → made.Shelters) :
      ∀ run ∈ runs, run.ended.1 ≠ .failed .releasedEnvironment ∧
        ∀ made, run.Makes made → ¬ made.Fails := by
    intro run isRun
    have never := (ran.shelters comply).2 run isRun
    refine ⟨fun released => ?_, never⟩
    obtain ⟨made, makes, fails⟩ := (Program.meetsReleased_iff run.depth run.session.global run.held
      run.session.loaded run.program run.session.store).mp (Eval.outcome_eq_released.mp released)
    exact never made makes fails
  refine ⟨sound, fun plain => sound fun run isRun made makes _ _ argument isArgument => ?_⟩
  exact Value.sheltered_of_plain (plain run isRun made makes argument isArgument)

/-- The program `fn(f) { f() }(fn() { 1 })` passes a function to a call. The home of both
functions is the outermost frame, and the frame of the call lies inside it. -/
theorem Session.start_run_passed_sound :
    let run : Run := ⟨start, [], 3, [.expr (.call
      (.fn ["f"] [.expr (.call (.ident "f") [])]) [.fn [] [.expr (.int 1)]])]⟩
    run.ended.1 ≠ .failed .releasedEnvironment ∧ ∀ made, run.Makes made → ¬ made.Fails := by
  refine (Ran.never_released (.run .start 3 _)).1 ?_ _ List.mem_cons_self
  intro run isRun made makes
  obtain rfl := List.mem_singleton.mp isRun
  -- Two calls are made: that of the outer function, and inside it that of `f`.
  rcases makes with
    (⟨⟨⟩⟩ | ⟨_, _, ⟨⟩, _, ⟨⟩, (⟨⟨⟩⟩ | ⟨_, _, ⟨⟩, ⟨⟩⟩) | ⟨_, _, ⟨⟩, outer⟩⟩) | ⟨_, _, _, ⟨⟩⟩
  rcases outer with
    rfl | ⟨-, -, (⟨⟨⟩⟩ | ⟨_, _, isFound, _, rfl, ⟨⟨⟩⟩ | ⟨_, _, ⟨⟩, inner⟩⟩) | ⟨_, _, _, ⟨⟩⟩⟩
  · rintro - - argument isArgument _ rfl
    obtain ⟨⟩ := List.mem_singleton.mp isArgument
    exact Or.inl ⟨_, rfl, .single ⟨_, Store.contents?_alloc_self _ _, rfl⟩⟩
  · rw [Expr.eval, lookup_apply] at isFound
    rcases inner with rfl | ⟨-, -, body⟩
    · rintro - - _ ⟨⟩
    · cbv at isFound
      cases isFound
      rcases body with ⟨⟨⟩⟩ | ⟨_, _, _, ⟨⟩⟩

end Monkey
