/-
# What runs leave behind

A call makes a frame, and gives it up when it ends. The frame outlives the call only if
something else holds it by then: a function that has captured it, or a frame that lies
inside it. A function captures frames when calls return it. So if no call returns a function,
what has been captured is older than the run, and a frame that was made in the run can be held
by younger frames alone. The youngest of those that are left would be held by nothing, and there
is none.
-/

import Monkey.Proofs.Eval.Built
import Monkey.Proofs.Store.Chains

namespace Monkey

/-- The call ends with a function as its value, if it is granted depth enough. -/
def Call.ReturnsFunction (made : Call) : Prop :=
  ∃ depth closure after,
    made.closure.apply depth made.arguments made.store = .ok (.function closure) after

/-- The value has captured only frames that are older than the mark. -/
def Value.CapturesOlder (mark : Nat) (value : Value) : Prop :=
  ∀ id ∈ value.captured, id.index < mark

/-- Among the frames that have been made since the mark, only younger ones hold older ones, by
lying inside them. -/
structure Store.Tidy (mark : Nat) (held : List Hold) (store : Store) : Prop where
  balanced : store.Balanced held
  size : mark ≤ store.cells.size
  inHand : ∀ value, .value value ∈ held → value.CapturesOlder mark
  bound : ∀ {id contents value}, store.contents? id = some contents →
    value ∈ contents.bindings.items → value.CapturesOlder mark
  outer : ∀ {id contents around}, store.contents? id = some contents →
    contents.outer = some around → around.index < mark ∨ around.index < id.index

theorem Value.capturesOlder_of_nil {mark : Nat} {value : Value} (nothing : value.captured = []) :
    value.CapturesOlder mark := by
  intro id isCaptured
  rw [nothing] at isCaptured
  cases isCaptured

namespace Store.Tidy

variable {mark : Nat} {held : List Hold} {store : Store}

/-- Everything is tidy if the mark is set now. -/
theorem now (balanced : store.Balanced held) : store.Tidy store.cells.size held where
  balanced := balanced
  size := Nat.le_refl _
  inHand _ isHeld _ isCaptured :=
    index_lt_of_isLive (isLive_of_mem_held balanced isHeld isCaptured)
  bound isContents isBound _ isCaptured :=
    index_lt_of_isLive (balanced.isLive_of_bound isContents isBound isCaptured)
  outer isContents isOuter :=
    Or.inl (index_lt_of_isLive (balanced.isLive_of_inside ⟨_, isContents, isOuter⟩))

/-- If no scope is held that has been made since the mark, no frame is left of those made since.
The youngest of them could be held by nothing. -/
theorem index_lt (tidy : store.Tidy mark held) (scopes : ∀ env, .scope env ∈ held → env.index < mark)
    {id : FrameId} (live : store.isLive id = true) : id.index < mark := by
  induction younger : store.cells.size - id.index using Nat.strongRecOn generalizing id with
  | ind distance ih =>
      refine Decidable.byContradiction fun since => ?_
      rcases tidy.balanced.mem_or_mem_links live with isHeld | isLink
      · obtain ⟨hold, isHeld, isFrame⟩ := List.mem_flatMap.mp isHeld
        cases hold with
        | scope env =>
            cases List.mem_singleton.mp isFrame
            exact since (scopes _ isHeld)
        | value value => exact since (tidy.inHand value isHeld id isFrame)
      · obtain ⟨holder, frame, isFrame, isLink⟩ := mem_links_iff.mp isLink
        have isContents := contents?_of_frame? isFrame
        rcases List.mem_append.mp isLink with isOuter | isCaptured
        · have isOuter : frame.contents.outer = some id := Option.mem_toList.mp isOuter
          rcases tidy.outer isContents isOuter with older | inside
          · exact since older
          · -- The holder is younger still, so it is not there either.
            have holderLive := isLive_of_frame? isFrame
            have inBounds := index_lt_of_isLive holderLive
            have older := ih (store.cells.size - holder.index) (by omega) holderLive rfl
            omega
        · obtain ⟨value, isBound, isCaptured⟩ := List.mem_flatMap.mp isCaptured
          exact since (tidy.bound isContents isBound id isCaptured)

/-! ## Steps -/

/-- What changes no bindings and makes no frames keeps a store tidy. -/
theorem ofHolds {after : Store} {heldAfter : List Hold} (tidy : store.Tidy mark held)
    (balanced : after.Balanced heldAfter) (size : after.cells.size = store.cells.size)
    (same : ∀ id contents, after.contents? id = some contents →
      store.contents? id = some contents)
    (inHand : ∀ value, .value value ∈ heldAfter → value.CapturesOlder mark) :
    after.Tidy mark heldAfter where
  balanced := balanced
  size := Nat.le_trans tidy.size (Nat.le_of_eq size.symm)
  inHand := inHand
  bound isContents := tidy.bound (same _ _ isContents)
  outer isContents := tidy.outer (same _ _ isContents)

theorem retain {value : Value} (tidy : store.Tidy mark held)
    (balanced : (store.retain value.captured).Balanced (.value value :: held))
    (older : value.CapturesOlder mark) :
    (store.retain value.captured).Tidy mark (.value value :: held) := by
  refine tidy.ofHolds balanced (size_retain _ _)
    (fun id _ isContents => (contents?_retain store _ id).symm.trans isContents) ?_
  intro other isHeld
  rcases List.mem_cons.mp isHeld with ⟨⟨⟩⟩ | isHeld
  · exact older
  · exact tidy.inHand other isHeld

theorem drop {hold : Hold} (tidy : store.Tidy mark (hold :: held)) :
    (store.release hold.frames).Tidy mark held := by
  exact tidy.ofHolds (balanced_invariant.drop tidy.balanced) (size_release _ _)
    (fun _ _ => contents?_of_release)
    fun value isHeld => tidy.inHand value (List.mem_cons_of_mem _ isHeld)

theorem define {env : FrameId} {value : Value} (tidy : store.Tidy mark (.value value :: held))
    (inScope : .scope env ∈ held) (name : String) :
    (store.define env name value).Tidy mark held := by
  have live := isLive_of_mem_held tidy.balanced (List.mem_cons_of_mem _ inScope)
    List.mem_cons_self
  refine ⟨balanced_invariant.define tidy.balanced inScope name, ?_, ?_, ?_, ?_⟩
  · rw [size_define]
    exact tidy.size
  · exact fun other isHeld => tidy.inHand other (List.mem_cons_of_mem _ isHeld)
  · intro id contents item isContents isBound
    obtain ⟨earlier, isEarlier, -, sources⟩ := contents?_of_define live isContents
    rcases sources item isBound with ⟨-, rfl⟩ | wasBound
    · exact tidy.inHand item List.mem_cons_self
    · exact tidy.bound isEarlier wasBound
  · intro id contents around isContents isOuter
    obtain ⟨earlier, isEarlier, sameOuter, -⟩ := contents?_of_define live isContents
    exact tidy.outer isEarlier (sameOuter.trans isOuter)

/-- A new frame is younger than the frame in which it lies. -/
theorem alloc {home : FrameId} {heldAfter : List Hold} (tidy : store.Tidy mark held)
    (live : store.isLive home = true) (balanced : (store.alloc (some home)).2.Balanced heldAfter)
    (stays : ∀ value, .value value ∈ heldAfter → .value value ∈ held) :
    (store.alloc (some home)).2.Tidy mark heldAfter := by
  refine ⟨balanced, ?_, ?_, ?_, ?_⟩
  · rw [size_alloc]
    exact Nat.le_succ_of_le tidy.size
  · exact fun value isHeld => tidy.inHand value (stays value isHeld)
  · intro id contents item isContents isBound
    rcases contents?_of_alloc isContents with ⟨-, rfl⟩ | isEarlier
    · cases isBound
    · exact tidy.bound isEarlier isBound
  · intro id contents around isContents isOuter
    rcases contents?_of_alloc isContents with ⟨rfl, rfl⟩ | isEarlier
    · cases isOuter
      exact Or.inr (index_lt_of_isLive live)
    · exact tidy.outer isEarlier isOuter

end Store.Tidy

open Eval

/-- Where no call returns a function, everything stays tidy. -/
theorem Store.tidy_discipline (mark : Nat) :
    Discipline (fun env held => Hold.scope env ∈ held) (fun made => ¬ made.ReturnsFunction)
      fun held store => store.Tidy mark held where
  inHand isHeld _ := List.mem_cons_of_mem _ isHeld
  inFrame _ _ := List.mem_cons_self
  arrange {held store first second} tidy same := by
    have perm := (same.map Hold.value).append_right held
    exact tidy.ofHolds (balanced_invariant.perm tidy.balanced perm) rfl (fun _ _ => id)
      fun value isHeld => tidy.inHand value (perm.mem_iff.mpr isHeld)
  plain {held store value} tidy plain := by
    refine tidy.ofHolds (balanced_invariant.plain tidy.balanced plain) rfl (fun _ _ => id)
      fun other isHeld => ?_
    rcases List.mem_cons.mp isHeld with ⟨⟨⟩⟩ | isHeld
    · exact Value.capturesOlder_of_nil (Value.captured_of_kind plain)
    · exact tidy.inHand other isHeld
  literal {held store env} tidy _ _ _ _ := by
    refine tidy.ofHolds tidy.balanced rfl (fun _ _ => id) fun other isHeld => ?_
    rcases List.mem_cons.mp isHeld with ⟨⟨⟩⟩ | isHeld
    · exact Value.capturesOlder_of_nil rfl
    · exact tidy.inHand other isHeld
  found tidy inScope found := by
    obtain ⟨_, _, -, isContents, isBound⟩ := exists_onChain_of_resolve found
    exact tidy.retain (balanced_invariant.found tidy.balanced inScope found)
      (tidy.bound isContents isBound)
  copy tidy := tidy.retain (balanced_invariant.copy tidy.balanced List.mem_cons_self)
    (tidy.inHand _ List.mem_cons_self)
  drop := Tidy.drop
  define := Tidy.define
  enter {held store closure arguments} _ tidy _ live := by
    have isHeld : .value (.function closure) ∈
        Hold.values arguments ++ .value (.function closure) :: held :=
      List.mem_append_right _ List.mem_cons_self
    have balanced := balanced_invariant.perm
      (balanced_invariant.enter tidy.balanced isHeld live) List.perm_middle.symm
    refine tidy.alloc live balanced fun value isHeld => ?_
    simpa using isHeld
  handOver never isApplied _ := absurd ⟨_, _, _, isApplied⟩ never

/-- Evaluations move no frames and bring none back. -/
theorem Store.evolves_invariant (before : Store) :
    Invariant fun held store => store.Balanced held ∧ before.EvolvesTo store where
  perm kept same := ⟨balanced_invariant.perm kept.1 same, kept.2⟩
  plain kept plain := ⟨balanced_invariant.plain kept.1 plain, kept.2⟩
  literal kept _ _ _ _ := kept
  found kept inScope found :=
    ⟨balanced_invariant.found kept.1 inScope found, kept.2.trans (.retain _ _)⟩
  copy kept isHeld := ⟨balanced_invariant.copy kept.1 isHeld, kept.2.trans (.retain _ _)⟩
  drop kept := ⟨balanced_invariant.drop kept.1, kept.2.trans (.release _ _)⟩
  define kept inScope name := by
    have live := isLive_of_mem_held kept.1 (List.mem_cons_of_mem _ inScope) List.mem_cons_self
    exact ⟨balanced_invariant.define kept.1 inScope name, kept.2.trans (.define live name _)⟩
  enter kept isHeld live :=
    ⟨balanced_invariant.enter kept.1 isHeld live, kept.2.trans (.alloc _ _)⟩
  leave kept := ⟨balanced_invariant.leave kept.1, kept.2⟩

/-- A run in which no call returns a function leaves no frame behind that it has made, whichever
way it ends. -/
theorem Program.isLive_of_isLive_eval {depth : Nat} {env : FrameId} {held : List Hold}
    {base : Nat} {program : Program} {store : Store} (balanced : store.Balanced held)
    (inScope : Hold.scope env ∈ held)
    (never : ∀ made, program.Makes depth env held base store made → ¬ made.ReturnsFunction)
    {id : FrameId}
    (live : ((program.eval depth env base).outcome store).2.isLive id = true) :
    store.isLive id = true := by
  have ended := (Program.eval_keeps (Store.tidy_discipline store.cells.size) depth inScope base
    program store (.now balanced) never).1.outcome
  have older : id.index < store.cells.size := by
    refine ended.index_lt (fun other isHeld => ?_) live
    rcases List.mem_append.mp isHeld with ofOutcome | isHeld
    · generalize ((program.eval depth env base).outcome store).1 = outcome at ofOutcome
      cases outcome <;> simp [Outcome.holds] at ofOutcome
    · exact Store.index_lt_of_isLive (Store.isLive_of_mem_held balanced isHeld List.mem_cons_self)
  have evolves := (Program.eval_transfers (Store.evolves_invariant store) depth inScope base
    program store ⟨balanced, .refl store⟩).outcome.2
  exact evolves.isLive older live

end Monkey
