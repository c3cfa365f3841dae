/-
# Names that are changed are bound where they are changed

Frames are told apart: those of calls whose literal is the one that is changed, or inside it,
and all others. A function that is made by a literal inside has its home inside, and one that
is made outside has its home outside, so the chain of a frame that is inside goes through
frames that are inside until it comes to one of the literal itself. That one binds the
parameters of the literal. So a name that is changed is found before the chain leaves the
literal, and looking a name up finds the same after the change.
-/

import Monkey.Proofs.Eval.Accounts
import Monkey.Proofs.Renaming.Store
import Monkey.Proofs.Store.Chains

namespace Monkey

/-- What binding names one after the other leaves in the frames. The frame is held meanwhile, so
it stays. -/
theorem Store.contents?_of_defineAll {held : List Hold} {env : FrameId}
    (inScope : Hold.scope env ∈ held) (bindings : List (String × Value)) {store : Store}
    (balanced : store.Balanced (Hold.values (bindings.map Prod.snd) ++ held)) {id : FrameId}
    {contents : Contents}
    (isContents : (store.defineAll env bindings).contents? id = some contents) :
    ∃ earlier, store.contents? id = some earlier ∧ earlier.outer = contents.outer ∧
      (∀ item ∈ contents.bindings.items,
        item ∈ earlier.bindings.items ∨ item ∈ bindings.map Prod.snd) ∧
      ∀ name, (earlier.bindings.find? name).isSome ∨ (id = env ∧ name ∈ bindings.map Prod.fst) →
        (contents.bindings.find? name).isSome := by
  induction bindings generalizing store with
  | nil => exact ⟨contents, isContents, rfl, fun _ => Or.inl, fun _ bound => by simpa using bound⟩
  | cons binding bindings ih =>
      have inScope' := List.mem_append_right (Hold.values (bindings.map Prod.snd)) inScope
      have live := isLive_of_mem_held balanced (List.mem_cons_of_mem _ inScope')
        (List.mem_singleton.mpr rfl)
      obtain ⟨middle, isMiddle, sameOuter, items, names⟩ :=
        ih (balanced_invariant.define balanced inScope' binding.1) isContents
      obtain ⟨frame, isFrame⟩ := exists_frame_of_isLive live
      have isEnv := contents?_of_frame? isFrame
      rw [contents?_define isEnv binding.1 binding.2 (isLive_of_contents? isMiddle)] at isMiddle
      split at isMiddle
      · next same =>
          cases isMiddle
          subst same
          refine ⟨_, isEnv, sameOuter, fun item isItem => ?_, fun name bound => ?_⟩
          · rcases items item isItem with wasBound | isLater
            · rcases Bindings.mem_items_of_mem_insert wasBound with rfl | wasBound
              · exact Or.inr List.mem_cons_self
              · exact Or.inl wasBound
            · exact Or.inr (List.mem_cons_of_mem _ isLater)
          · apply names
            by_cases isName : name = binding.1
            · subst isName
              exact Or.inl (by rw [Bindings.find?_insert_self, Option.isSome_some])
            · rcases bound with wasBound | ⟨-, isBound⟩
              · exact Or.inl (by rwa [Bindings.find?_insert_of_ne _ _ isName])
              · exact Or.inr ⟨rfl, (List.mem_cons.mp isBound).resolve_left isName⟩
      · next different =>
          refine ⟨middle, isMiddle, sameOuter, fun item isItem => ?_, fun name bound => ?_⟩
          · exact (items item isItem).imp_right (List.mem_cons_of_mem _)
          · exact names name (Or.inl (bound.resolve_right fun isEnv => different isEnv.1))

theorem Store.size_defineAll (store : Store) (id : FrameId) (bindings : List (String × Value)) :
    (store.defineAll id bindings).cells.size = store.cells.size := by
  induction bindings generalizing store with
  | nil => rfl
  | cons binding bindings ih =>
      exact (ih (store.define id binding.1 binding.2)).trans (size_define store id _ _)

section

variable (r : SafeRenaming) (inside : FrameId → Bool)

/-! ## Values -/

/-- A function is made by a literal of the program, in a frame that is inside the literal that is
changed if this one is. -/
structure Closure.Fits (size : Nat) (closure : Closure) : Prop where
  isMade : closure.home.index < size
  isHome : inside closure.home = r.surrounds closure.site
  names : (Expr.fn closure.parameters closure.body).Every (fun _ => True) r.occurs
  placed : r.literal.Placed closure.site
    ((Expr.fn closure.parameters closure.body).literals closure.site)

/-- Values other than functions always fit. -/
def Value.Fits (size : Nat) : Value → Prop
  | .function closure => closure.Fits r inside size
  | _ => True

/-- What is held and what is bound fits, and a frame inside the literal lies in another or is one
of a call of the literal itself. -/
structure Store.Lexical (held : List Hold) (store : Store) : Prop where
  balanced : store.Balanced held
  inHand : ∀ value, .value value ∈ held → value.Fits r inside store.cells.size
  bound : ∀ {id contents value}, store.contents? id = some contents →
    value ∈ contents.bindings.items → value.Fits r inside store.cells.size
  outer : ∀ {id contents around}, store.contents? id = some contents →
    contents.outer = some around → around.index < id.index ∧
      (inside around = true → inside id = true)
  binds : ∀ {id contents}, store.contents? id = some contents → inside id = true →
    (∃ around, contents.outer = some around ∧ inside around = true) ∨
      ∀ name ∈ r.literal.parameters, (contents.bindings.find? name).isSome

end

variable {r : SafeRenaming} {inside : FrameId → Bool}

namespace Value

variable {size : Nat} {value : Value}

theorem fits_of_kind (plain : value.kind ≠ .function) : value.Fits r inside size := by
  cases value with
  | function closure => exact absurd rfl plain
  | _ => exact trivial

/-- More frames make no difference, whichever of them are inside. -/
theorem Fits.mono {later : FrameId → Bool} {more : Nat} (fits : value.Fits r inside size)
    (isMore : size ≤ more) (same : ∀ id : FrameId, id.index < size → later id = inside id) :
    value.Fits r later more := by
  cases value with
  | function closure =>
      obtain ⟨isMade, isHome, names, placed⟩ := fits
      exact ⟨Nat.lt_of_lt_of_le isMade isMore, (same _ isMade).trans isHome, names, placed⟩
  | _ => exact trivial

end Value

namespace Store.Lexical

variable {held : List Hold} {store : Store}

/-! ## Looking names up -/

/-- Where the chain leaves the literal, names that are changed are bound. -/
theorem name_outer (lexical : store.Lexical r inside held) {id around : FrameId}
    {contents : Contents} (isContents : store.contents? id = some contents)
    (isOuter : contents.outer = some around) {name : String} (isName : r.occurs name)
    (unbound : contents.bindings.find? name = none) :
    r.name (inside id) name = r.name (inside around) name := by
  have inward := (lexical.outer isContents isOuter).2
  cases isInside : inside id with
  | false =>
      rw [isInside] at inward
      cases isAround : inside around with
      | false => rfl
      | true => cases inward isAround
  | true =>
      rcases lexical.binds isContents isInside with ⟨other, isOther, isAround⟩ | bindsAll
      · cases isOuter.symm.trans isOther
        rw [isAround]
      · have unmoved : r.change name = name := by
          by_contra moved
          have isBound := bindsAll name (r.isParameter name isName moved)
          rw [unbound] at isBound
          cases isBound
        cases inside around with
        | false => exact unmoved
        | true => rfl

/-- A parameter of the literal is bound for all that is inside it. -/
theorem isSome_resolve (lexical : store.Lexical r inside held) {env : FrameId}
    (live : store.isLive env = true) (isInside : inside env = true) {name : String}
    (isParameter : name ∈ r.literal.parameters) : (store.resolve env name).isSome := by
  fun_induction Store.resolve store env name with
  | case1 env gone => simp [isLive, gone] at live
  | case2 env frame isFrame value isBound => rfl
  | case3 env frame isFrame unbound outermost =>
      rcases lexical.binds (contents?_of_frame? isFrame) isInside with ⟨_, isOuter, -⟩ | bindsAll
      · cases outermost.symm.trans isOuter
      · have isBound := bindsAll _ isParameter
        rw [Frame.contents, unbound] at isBound
        cases isBound
  | case4 env frame isFrame unbound outer isOuter older ih =>
      have isContents := contents?_of_frame? isFrame
      rcases lexical.binds isContents isInside with ⟨other, isOther, isAround⟩ | bindsAll
      · cases isOuter.symm.trans isOther
        exact ih (lexical.balanced.isLive_of_inside ⟨_, isContents, isOuter⟩) isAround
      · have isBound := bindsAll _ isParameter
        rw [Frame.contents, unbound] at isBound
        cases isBound
  | case5 env frame isFrame unbound outer isOuter younger =>
      exact absurd (lexical.outer (contents?_of_frame? isFrame) isOuter).1 younger

/-- A name that stands for nothing is not changed. -/
theorem name_of_unresolved (lexical : store.Lexical r inside held) {env : FrameId}
    (live : store.isLive env = true) {name : String} (isName : r.occurs name)
    (unresolved : store.resolve env name = none) : r.name (inside env) name = name := by
  cases isInside : inside env with
  | false => rfl
  | true =>
      by_contra moved
      have resolved := lexical.isSome_resolve live isInside (r.isParameter name isName moved)
      rw [unresolved] at resolved
      cases resolved

/-- A name stands for the same after the change. -/
theorem resolve_rename (lexical : store.Lexical r inside held) {env : FrameId}
    (live : store.isLive env = true) {name : String} (isName : r.occurs name) :
    (store.rename r inside).resolve env (r.name (inside env) name) =
      (store.resolve env name).map (Value.rename r) := by
  fun_induction Store.resolve store env name with
  | case1 env gone => simp [isLive, gone] at live
  | case2 env frame isFrame value isBound =>
      rw [Store.resolve, frame?_rename, isFrame]
      simp [Frame.rename, Bindings.find?_relabel, isBound]
  | case3 env frame isFrame unbound outermost =>
      rw [Store.resolve, frame?_rename, isFrame]
      simp [Frame.rename, Bindings.find?_relabel, unbound, outermost]
  | case4 env frame isFrame unbound outer isOuter older ih =>
      have isContents := contents?_of_frame? isFrame
      have found := ih (lexical.balanced.isLive_of_inside ⟨_, isContents, isOuter⟩)
      rw [← lexical.name_outer isContents isOuter isName unbound] at found
      rw [Store.resolve, frame?_rename, isFrame]
      simp [Frame.rename, Bindings.find?_relabel, unbound, isOuter, older, found]
  | case5 env frame isFrame unbound outer isOuter younger =>
      rw [Store.resolve, frame?_rename, isFrame]
      simp [Frame.rename, Bindings.find?_relabel, unbound, isOuter, younger]

/-! ## Steps -/

/-- What changes no bindings and makes no frames changes nothing here. -/
theorem ofHolds {after : Store} {heldAfter : List Hold} (lexical : store.Lexical r inside held)
    (balanced : after.Balanced heldAfter) (size : after.cells.size = store.cells.size)
    (same : ∀ id contents, after.contents? id = some contents →
      store.contents? id = some contents)
    (inHand : ∀ value, .value value ∈ heldAfter → value.Fits r inside store.cells.size) :
    after.Lexical r inside heldAfter where
  balanced := balanced
  inHand := by
    rw [size]
    exact inHand
  bound isContents isBound := by
    rw [size]
    exact lexical.bound (same _ _ isContents) isBound
  outer isContents := lexical.outer (same _ _ isContents)
  binds isContents := lexical.binds (same _ _ isContents)

theorem perm (lexical : store.Lexical r inside held) {other : List Hold} (same : held.Perm other) :
    store.Lexical r inside other :=
  lexical.ofHolds (balanced_invariant.perm lexical.balanced same) rfl (fun _ _ => id)
    fun value isHeld => lexical.inHand value (same.mem_iff.mpr isHeld)

/-- Something in hand besides what is held. -/
theorem fits_cons {value other : Value} {size : Nat} (fits : value.Fits r inside size)
    (others : ∀ value, .value value ∈ held → value.Fits r inside size)
    (isHeld : Hold.value other ∈ Hold.value value :: held) : other.Fits r inside size := by
  rcases List.mem_cons.mp isHeld with ⟨⟨⟩⟩ | isHeld
  · exact fits
  · exact others other isHeld

theorem plain (lexical : store.Lexical r inside held) {value : Value}
    (plain : value.kind ≠ .function) : store.Lexical r inside (.value value :: held) :=
  lexical.ofHolds (balanced_invariant.plain lexical.balanced plain) rfl (fun _ _ => id)
    fun _ => fits_cons (Value.fits_of_kind plain) lexical.inHand

/-- A function that has captured nothing needs no hold. -/
theorem literal (lexical : store.Lexical r inside held) {closure : Closure}
    (nothing : closure.captured = []) (fits : closure.Fits r inside store.cells.size) :
    store.Lexical r inside (.value (.function closure) :: held) := by
  have balanced : store.Balanced (.value (.function closure) :: held) := by
    unfold Balanced Hold.allFrames
    rw [List.flatMap_cons, Hold.frames, Value.captured, nothing]
    exact lexical.balanced
  exact lexical.ofHolds balanced rfl (fun _ _ => id)
    fun _ => fits_cons (show Value.Fits r inside _ (.function closure) from fits) lexical.inHand

theorem found (lexical : store.Lexical r inside held) {env : FrameId}
    (inScope : Hold.scope env ∈ held) {name : String} {value : Value}
    (found : store.resolve env name = some value) :
    (store.retain value.captured).Lexical r inside (.value value :: held) := by
  obtain ⟨_, _, -, isContents, isBound⟩ := exists_onChain_of_resolve found
  exact lexical.ofHolds (balanced_invariant.found lexical.balanced inScope found) (size_retain _ _)
    (fun id _ isContents => (contents?_retain store _ id).symm.trans isContents)
    fun _ => fits_cons (lexical.bound isContents isBound) lexical.inHand

theorem copy {value : Value} (lexical : store.Lexical r inside (.value value :: held)) :
    (store.retain value.captured).Lexical r inside (.value value :: .value value :: held) :=
  lexical.ofHolds (balanced_invariant.copy lexical.balanced List.mem_cons_self) (size_retain _ _)
    (fun id _ isContents => (contents?_retain store _ id).symm.trans isContents)
    fun _ => fits_cons (lexical.inHand value List.mem_cons_self) lexical.inHand

theorem drop {hold : Hold} (lexical : store.Lexical r inside (hold :: held)) :
    (store.release hold.frames).Lexical r inside held :=
  lexical.ofHolds (balanced_invariant.drop lexical.balanced) (size_release _ _)
    (fun _ _ => contents?_of_release)
    fun value isHeld => lexical.inHand value (List.mem_cons_of_mem _ isHeld)

theorem leave {closure : Closure} {frame : FrameId}
    (lexical : store.Lexical r inside (.value (.function closure) :: .scope frame :: held)) :
    store.Lexical r inside (.value (.function (closure.returnedFrom frame)) :: held) := by
  obtain ⟨isMade, isHome, names, placed⟩ := lexical.inHand (.function closure) List.mem_cons_self
  refine lexical.ofHolds (balanced_invariant.leave lexical.balanced) rfl (fun _ _ => id) fun _ => ?_
  exact fits_cons (show Value.Fits r inside _ (.function (closure.returnedFrom frame)) from
    ⟨isMade, isHome, names, placed⟩) fun value isHeld =>
      lexical.inHand value (List.mem_cons_of_mem _ (List.mem_cons_of_mem _ isHeld))

theorem define {env : FrameId} {value : Value}
    (lexical : store.Lexical r inside (.value value :: held)) (inScope : Hold.scope env ∈ held)
    (name : String) : (store.define env name value).Lexical r inside held := by
  have frames {id contents} (isContents : (store.define env name value).contents? id =
      some contents) :=
    contents?_of_defineAll inScope [(name, value)] lexical.balanced isContents
  refine ⟨balanced_invariant.define lexical.balanced inScope name, ?_, ?_, ?_, ?_⟩
  · rw [size_define]
    exact fun other isHeld => lexical.inHand other (List.mem_cons_of_mem _ isHeld)
  · rw [size_define]
    intro id contents item isContents isItem
    obtain ⟨earlier, isEarlier, -, items, -⟩ := frames isContents
    rcases items item isItem with wasBound | isValue
    · exact lexical.bound isEarlier wasBound
    · cases List.mem_singleton.mp isValue
      exact lexical.inHand value List.mem_cons_self
  · intro id contents around isContents isOuter
    obtain ⟨earlier, isEarlier, sameOuter, -, -⟩ := frames isContents
    exact lexical.outer isEarlier (sameOuter.trans isOuter)
  · intro id contents isContents isInside
    obtain ⟨earlier, isEarlier, sameOuter, -, names⟩ := frames isContents
    rw [← sameOuter]
    exact (lexical.binds isEarlier isInside).imp_right fun bindsAll name isParameter =>
      names name (Or.inl (bindsAll name isParameter))

/-! ## Calls -/

/-- Whether a frame is inside the literal, once a call has been entered. -/
def enter (r : SafeRenaming) (inside : FrameId → Bool) (store : Store) (closure : Closure) :
    FrameId → Bool :=
  Function.update inside (Closure.callFrame store) (r.covers closure.site)

theorem enter_self (closure : Closure) :
    enter r inside store closure (Closure.callFrame store) = r.covers closure.site :=
  Function.update_self ..

theorem enter_of_lt (closure : Closure) {id : FrameId} (older : id.index < store.cells.size) :
    enter r inside store closure id = inside id := by
  refine Function.update_of_ne ?_ _ _
  rintro rfl
  exact Nat.lt_irrefl _ older

/-- A call enters a frame that is inside the literal if its function was made by that literal, or
by one inside it. -/
theorem enterCall {closure : Closure} {arguments : List Value}
    (lexical : store.Lexical r inside (Hold.values arguments ++ held))
    (isHeld : Hold.value (.function closure) ∈ held)
    (fits : closure.parameters.length = arguments.length)
    (live : store.isLive closure.home = true) :
    (closure.entered arguments store).Lexical r (enter r inside store closure)
      (.scope (Closure.callFrame store) :: held) := by
  have balanced := balanced_invariant.enterCall lexical.balanced isHeld fits live
  have size : (closure.entered arguments store).cells.size = store.cells.size + 1 := by
    rw [Closure.entered, size_defineAll, size_alloc]
  have older {value : Value} (isFit : value.Fits r inside store.cells.size) :
      value.Fits r (enter r inside store closure) (closure.entered arguments store).cells.size :=
    isFit.mono (size ▸ Nat.le_succ _) fun id => enter_of_lt closure
  have allocated := balanced_invariant.enter lexical.balanced (List.mem_append_right _ isHeld) live
  have given : (store.alloc (some closure.home)).2.Balanced
      (Hold.values ((closure.parameters.zip arguments).map Prod.snd) ++
        .scope (Closure.callFrame store) :: held) := by
    rw [List.map_snd_zip (Nat.le_of_eq fits.symm)]
    exact balanced_invariant.perm allocated List.perm_middle.symm
  have frames {id contents} (isContents : (closure.entered arguments store).contents? id =
      some contents) :=
    contents?_of_defineAll List.mem_cons_self _ given isContents
  obtain ⟨isMade, isHome, -, placed⟩ :=
    lexical.inHand (.function closure) (List.mem_append_right _ isHeld)
  refine ⟨balanced, fun value isHeld => ?_, ?_, ?_, ?_⟩
  · rcases List.mem_cons.mp isHeld with ⟨⟨⟩⟩ | isHeld
    exact older (lexical.inHand value (List.mem_append_right _ isHeld))
  · intro id contents item isContents isItem
    obtain ⟨earlier, isEarlier, -, items, -⟩ := frames isContents
    rw [List.map_snd_zip (Nat.le_of_eq fits.symm)] at items
    refine older ((items item isItem).elim (fun wasBound => ?_) fun isArgument => ?_)
    · rcases contents?_of_alloc isEarlier with ⟨-, rfl⟩ | isEarlier
      · cases wasBound
      · exact lexical.bound isEarlier wasBound
    · exact lexical.inHand item (List.mem_append_left _ (List.mem_map_of_mem isArgument))
  · intro id contents around isContents isOuter
    obtain ⟨earlier, isEarlier, sameOuter, -, -⟩ := frames isContents
    rw [← sameOuter] at isOuter
    rcases contents?_of_alloc isEarlier with ⟨rfl, rfl⟩ | isEarlier
    · cases isOuter
      refine ⟨isMade, fun isAround => ?_⟩
      rw [enter_of_lt closure isMade, isHome] at isAround
      exact (enter_self closure).trans (r.covers_of_surrounds isAround)
    · obtain ⟨isOlder, inward⟩ := lexical.outer isEarlier isOuter
      have isMade := index_lt_of_isLive (isLive_of_contents? isEarlier)
      rw [enter_of_lt closure isMade, enter_of_lt closure (Nat.lt_trans isOlder isMade)]
      exact ⟨isOlder, inward⟩
  · intro id contents isContents isInside
    obtain ⟨earlier, isEarlier, sameOuter, -, names⟩ := frames isContents
    rw [← sameOuter]
    rw [List.map_fst_zip (Nat.le_of_eq fits)] at names
    rcases contents?_of_alloc isEarlier with ⟨rfl, rfl⟩ | isEarlier
    · by_cases same : closure.site = r.literal.site
      · -- The literal itself is called, so its parameters have just been bound.
        refine Or.inr fun name isParameter => names name (Or.inr ⟨rfl, ?_⟩)
        rwa [placed.eq same] at isParameter
      · refine Or.inl ⟨closure.home, rfl, ?_⟩
        rw [enter_of_lt closure isMade, isHome, r.surrounds_of_ne same]
        exact (enter_self closure).symm.trans isInside
    · have isMade := index_lt_of_isLive (isLive_of_contents? isEarlier)
      rw [enter_of_lt closure isMade] at isInside
      refine (lexical.binds isEarlier isInside).imp ?_ fun bindsAll name isParameter =>
        names name (Or.inl (bindsAll name isParameter))
      rintro ⟨around, isOuter, isAround⟩
      have isOlder := (lexical.outer isEarlier isOuter).1
      exact ⟨around, isOuter,
        (enter_of_lt closure (Nat.lt_trans isOlder isMade)).trans isAround⟩

/-- A call of the changed program enters the same frame, with other names in it. -/
theorem entered_rename (closure : Closure) (arguments : List Value) :
    (closure.rename r).entered (arguments.map (Value.rename r)) (store.rename r inside) =
      (closure.entered arguments store).rename r (enter r inside store closure) := by
  have isFlag : enter r inside store closure (Closure.callFrame store) = r.covers closure.site :=
    enter_self closure
  have sameStore : store.rename r inside = store.rename r (enter r inside store closure) :=
    store.rename_congr r fun id older => (enter_of_lt closure older).symm
  have sameFrame : Closure.callFrame (store.rename r (enter r inside store closure)) =
      Closure.callFrame store := congrArg FrameId.mk (store.size_rename r _)
  rw [sameStore, Closure.entered, Closure.entered, alloc_rename, ← defineAll_rename, isFlag,
    sameFrame, ← List.zip_map]
  rfl

end Store.Lexical

end Monkey
