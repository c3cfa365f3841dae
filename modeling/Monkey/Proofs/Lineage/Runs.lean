/-
# What functions remember is their lineage

The body of a call is evaluated in a frame of its own, in which nothing has been evaluated
before, so a call goes side by side with a recorded call, and so does a program. Whatever
function comes up in a run then has the parameters, the body and the home of one birth, and has
captured the frames of the calls it was returned from. No two births are of one literal in one
frame. That is why comparing literals and homes, as programs do, is comparing births.
-/

import Mathlib
import Monkey.Proofs.Eval.Steps
import Monkey.Proofs.Lineage.Evaluation

namespace Monkey

namespace Lineage

/-! ## Calls -/

section

variable {closure : Closure} {items : List Item} {world : World}

/-- The world in which the body of a call begins. -/
def entered (closure : Closure) (items : List Item) (world : World) : World :=
  (world.onStore fun store => (store.alloc (some closure.home)).2).defineAll
    (Closure.callFrame world.store) (closure.parameters.zip items)

/-- The world in which the arguments of a call have been given up. -/
def givenUp (items : List Item) (world : World) : World :=
  world.onStore (·.release (items.flatMap (·.value.captured)))

theorem apply_of_wrongCount (depth : Nat) (wrong : closure.parameters.length ≠ items.length) :
    apply (depth + 1) closure items world =
      .error (.failed (.wrongArgumentCount closure.parameters.length items.length))
        (givenUp items world) := by
  rw [apply, if_pos wrong]
  rfl

theorem apply_of_released (depth : Nat) (fits : closure.parameters.length = items.length)
    (gone : world.store.isLive closure.home = false) :
    apply (depth + 1) closure items world =
      .error (.failed .releasedEnvironment) (givenUp items world) := by
  rw [apply, if_neg (not_ne_iff.mpr fits)]
  show (if !world.store.isLive closure.home then _ else _ : Eval Item) world = _
  rw [gone]
  rfl

theorem apply_of_live (depth : Nat) (fits : closure.parameters.length = items.length)
    (live : world.store.isLive closure.home = true) :
    apply (depth + 1) closure items world =
      inFrame (Closure.callFrame world.store)
        (evalBlock (apply depth) (Closure.callFrame world.store) (closure.site.child 0) 0
          (.plain .null) closure.body) (entered closure items world) := by
  rw [apply, if_neg (not_ne_iff.mpr fits)]
  show (if !world.store.isLive closure.home then _ else _ : Eval Item) world = _
  rw [live]
  rfl

theorem store_givenUp (items : List Item) (world : World) :
    (givenUp items world).store =
      world.store.release ((items.map Item.value).flatMap Value.captured) := by
  rw [List.flatMap_map]
  rfl

/-- A call that is refused has only given up its arguments. -/
theorem Records.refused {env : FrameId} {region : Site → Prop} (sound : world.Sound)
    (items : List Item) {signal : Signal} (faithful : signal.Faithful world.record) :
    Records env region world Item.value Record.Faithful (.error signal (givenUp items world))
      (.error signal.plain
        (world.store.release ((items.map Item.value).flatMap Value.captured))) := by
  rw [← store_givenUp]
  exact .signal (.ofStore rfl (Nat.le_of_eq (Store.size_release _ _).symm)) (sound.release _)
    faithful

/-- Binding items one after the other binds their values. -/
theorem store_entered : (entered closure items world).store =
    closure.entered (items.map Item.value) world.store := by
  have defined (names : List String) (items : List Item) (world : World) (frame : FrameId) :
      (world.defineAll frame (names.zip items)).store =
        world.store.defineAll frame (names.zip (items.map Item.value)) := by
    induction names generalizing world items with
    | nil => rfl
    | cons name names ih =>
        cases items with
        | nil => rfl
        | cons item items => exact ih items (world.define frame name item)
  exact defined closure.parameters items _ _

/-- A call begins in a sound world. -/
theorem sound_entered (closure : Closure) (sound : world.Sound)
    (areFaithful : ∀ item ∈ items, world.record.Faithful item) :
    (entered closure items world).Sound := by
  apply (sound.alloc (some closure.home)).defineAll
  intro binding isBinding
  exact areFaithful binding.2 (List.of_mem_zip isBinding).2

/-- Binding items adds no births and no frames. -/
theorem grows_defineAll (world : World) (frame : FrameId) (bindings : List (String × Item))
    {env : FrameId} (region : Site → Prop) :
    World.Grows env region world (world.defineAll frame bindings) := by
  induction bindings generalizing world with
  | nil => exact .refl world
  | cons binding bindings ih =>
      have size := Store.size_define world.store frame binding.1 binding.2.value
      have first : World.Grows env region world (world.define frame binding.1 binding.2) :=
        .ofStore rfl (Nat.le_of_eq size.symm)
      exact first.trans (ih _)

theorem grows_entered (closure : Closure) (items : List Item) (world : World) (env : FrameId)
    (region : Site → Prop) : World.Grows env region world (entered closure items world) := by
  have size := Store.size_alloc world.store (some closure.home)
  have allocated : World.Grows env region world
      (world.onStore fun store => (store.alloc (some closure.home)).2) :=
    .ofStore rfl (Nat.le_of_lt (size ▸ Nat.lt_succ_self _))
  exact allocated.trans (grows_defineAll _ _ _ region)

/-- Nothing has been evaluated in the frame of a call that begins. -/
theorem awaits_entered (closure : Closure) (items : List Item) (sound : world.Sound)
    (region : Site → Prop) :
    (entered closure items world).Awaits (Closure.callFrame world.store) region := by
  apply (World.Awaits.alloc sound (some closure.home)).grow
  · exact grows_defineAll _ _ _ fun _ => False
  · exact fun _ => False.elim

end

/-- A call records births in new frames only. -/
theorem apply_records (depth : Nat) (closure : Closure) (items : List Item) (world : World)
    (sound : world.Sound) (areFaithful : ∀ item ∈ items, world.record.Faithful item)
    (env : FrameId) (region : Site → Prop) :
    Records env region world Item.value Record.Faithful (apply depth closure items world)
      (Closure.apply depth closure (items.map Item.value) world.store) := by
  induction depth generalizing closure items world env region with
  | zero => exact .refused sound items trivial
  | succ depth ih =>
      by_cases fits : closure.parameters.length = items.length
      · have fits' : closure.parameters.length = (items.map Item.value).length := by
          rw [List.length_map, fits]
        cases live : world.store.isLive closure.home with
        | false =>
            rw [apply_of_released depth fits live, Closure.apply_of_released depth fits' live]
            exact .refused sound items trivial
        | true =>
            rw [apply_of_live depth fits live, Closure.apply_of_live depth fits' live,
              ← store_entered]
            have begins := grows_entered closure items world env region
            have entered := sound_entered closure sound areFaithful
            have awaits := awaits_entered closure items sound (From (closure.site.child 0) 0)
            have body := evalBlock_records ih (closure.site.child 0) 0 (.plain .null) closure.body
              entered awaits .null
            exact (body.inFrame _).ofNewFrame begins (Nat.le_refl _)
      · have wrong : closure.parameters.length ≠ (items.map Item.value).length := by
          rwa [List.length_map]
        rw [apply_of_wrongCount depth fits, Closure.apply_of_wrongCount depth wrong,
          List.length_map]
        exact .refused sound items trivial

/-! ## Programs -/

/-- How a run with a record ends: the outcome, the item of its value if it has one, and the world
that it leaves. -/
structure Ended where
  outcome : Outcome
  item : Option Item
  world : World

/-- Run a program with a record, in a fresh outermost frame. -/
def run (depth : Nat) (program : Program) : Ended :=
  match evalBlock (apply depth) Session.start.global [] 0 (.plain .null) program
      ⟨Session.start.store, .empty⟩ with
  | .ok item after => ⟨.value item.value, some item, after⟩
  | .error (.returned item) after => ⟨.returned item.value, some item, after⟩
  | .error (.failed fault) after => ⟨.failed fault, none, after⟩
  | .error .tooDeep after => ⟨.tooDeep, none, after⟩

/-- An item comes up in a run if a name, a literal or a call has come to it, if it is what the run
ends with, or if a frame binds it. -/
def Ended.Occurs (ended : Ended) (item : Item) : Prop :=
  item ∈ ended.world.record.seen ∨ ended.item = some item ∨
    ∃ id contents name, ended.world.store.contents? id = some contents ∧
      contents.bindings.find? name = some item.value ∧
      item.pedigree = ended.world.record.bound id name

theorem sound_start : World.Sound ⟨Session.start.store, .empty⟩ where
  bound {id contents name value} isContents isBound := by
    have isEmpty : contents.bindings = .empty := by
      rcases Store.contents?_of_alloc isContents with ⟨-, rfl⟩ | wasContents
      · rfl
      · cases wasContents
    rw [isEmpty] at isBound
    cases isBound
  seen := List.forall_mem_nil _
  apart := .nil
  made := List.forall_mem_nil _

/-- A run with a record is the run without, and all items that come up in it are faithful. -/
theorem run_faithful (depth : Nat) (program : Program) :
    (program.eval depth Session.start.global 0).outcome Session.start.store =
        ((run depth program).outcome, (run depth program).world.store) ∧
      (run depth program).world.Sound ∧
      ∀ item, (run depth program).Occurs item →
        (run depth program).world.record.Faithful item := by
  have awaits : World.Awaits ⟨Session.start.store, .empty⟩ Session.start.global (From [] 0) :=
    ⟨Nat.zero_lt_one, List.forall_mem_nil _⟩
  have records : Records Session.start.global (From [] 0) ⟨Session.start.store, .empty⟩ Item.value
      Record.Faithful
      (evalBlock (apply depth) Session.start.global [] 0 (.plain .null) program
        ⟨Session.start.store, .empty⟩)
      (program.eval depth Session.start.global 0 Session.start.store) :=
    evalBlock_records (apply_records depth) [] 0 (.plain .null) program sound_start awaits
      .null
  have occurring {ended : Ended} (sound : ended.world.Sound)
      (isGood : ∀ item, ended.item = some item → ended.world.record.Faithful item) (item : Item)
      (occurs : ended.Occurs item) : ended.world.record.Faithful item := by
    rcases occurs with isSeen | isItem | ⟨id, contents, name, isContents, isBound, isPedigree⟩
    · exact sound.seen item isSeen
    · exact isGood item isItem
    · obtain ⟨value, pedigree⟩ := item
      cases isPedigree
      exact sound.bound isContents isBound
  rw [Monkey.Eval.outcome, run]
  generalize evalBlock (apply depth) Session.start.global [] 0 (.plain .null) program
    ⟨Session.start.store, .empty⟩ = ended at records ⊢
  generalize program.eval depth Session.start.global 0 Session.start.store = ended' at records ⊢
  cases records with
  | value grows sound isGood =>
      exact ⟨rfl, sound, occurring sound fun item isItem => Option.some.inj isItem ▸ isGood⟩
  | @signal signal after grows sound isGood =>
      cases signal with
      | returned item =>
          exact ⟨rfl, sound, occurring sound fun other isItem =>
            Option.some.inj isItem ▸ isGood⟩
      | failed fault => exact ⟨rfl, sound, occurring sound fun _ isItem => by cases isItem⟩
      | tooDeep => exact ⟨rfl, sound, occurring sound fun _ isItem => by cases isItem⟩

/-- In a sound world two functions are of one origin exactly if they are of one birth. -/
theorem sameOrigin_iff {births : List Birth} (apart : births.Pairwise Birth.Apart)
    {number number' : Nat} {birth birth' : Birth} (isFirst : births[number]? = some birth)
    (isSecond : births[number']? = some birth') (returns returns' : List FrameId) :
    (birth.closure returns).sameOrigin (birth'.closure returns') = true ↔ number = number' := by
  have differ {first second : Nat} {early late : Birth} (isEarly : births[first]? = some early)
      (isLate : births[second]? = some late) (earlier : first < second) : early.Apart late := by
    obtain ⟨_, rfl⟩ := List.getElem?_eq_some_iff.mp isEarly
    obtain ⟨_, rfl⟩ := List.getElem?_eq_some_iff.mp isLate
    exact List.pairwise_iff_getElem.mp apart first second _ _ earlier
  constructor
  · intro same
    simp only [Closure.sameOrigin, Birth.closure, Bool.and_eq_true, beq_iff_eq] at same
    obtain ⟨⟨-, sameSite⟩, sameHome⟩ := same
    rcases Nat.lt_trichotomy number number' with earlier | isSame | later
    · exact absurd sameSite (differ isFirst isSecond earlier sameHome)
    · exact isSame
    · exact absurd sameSite.symm (differ isSecond isFirst later sameHome.symm)
  · rintro rfl
    rw [isFirst] at isSecond
    cases isSecond
    simp [Closure.sameOrigin, Birth.closure]

end Lineage

/-- In every run of a program, a function that comes up is the function of one birth, which is one
evaluation of one literal in one frame: it has the parameters and the body of that literal, that
frame as its home, and it has captured the frames of the calls that it was returned from since
then, in order. No literal is evaluated twice in one frame. And two functions are equal for the
program exactly if their births are one, whatever they have captured and whatever has been
released. -/
theorem Program.functions_of_births (depth : Nat) (program : Program) :
    (program.eval depth Session.start.global 0).outcome Session.start.store =
        ((Lineage.run depth program).outcome, (Lineage.run depth program).world.store) ∧
      (∀ closure pedigree, (Lineage.run depth program).Occurs ⟨.function closure, pedigree⟩ →
        ∃ known birth, pedigree = some known ∧
          (Lineage.run depth program).world.record.births[known.birth]? = some birth ∧
          closure = ⟨birth.literal.parameters, birth.literal.body, birth.literal.site, birth.home,
            known.returns⟩) ∧
      ((Lineage.run depth program).world.record.births.Pairwise fun first second =>
        first.home = second.home → first.literal.site ≠ second.literal.site) ∧
      ∀ closure closure' pedigree pedigree',
        (Lineage.run depth program).Occurs ⟨.function closure, some pedigree⟩ →
        (Lineage.run depth program).Occurs ⟨.function closure', some pedigree'⟩ →
        InfixOp.equal.apply (.function closure) (.function closure') =
          .ok (.bool (decide (pedigree.birth = pedigree'.birth))) := by
  obtain ⟨isOutcome, sound, faithful⟩ := Lineage.run_faithful depth program
  refine ⟨isOutcome, fun closure pedigree occurs => faithful _ occurs closure rfl, sound.apart, ?_⟩
  intro closure closure' pedigree pedigree' occurs occurs'
  obtain ⟨_, birth, ⟨rfl⟩, isBirth, rfl⟩ := faithful _ occurs closure rfl
  obtain ⟨_, birth', ⟨rfl⟩, isBirth', rfl⟩ := faithful _ occurs' closure' rfl
  have same := Lineage.sameOrigin_iff sound.apart isBirth isBirth' pedigree.returns
    pedigree'.returns
  have isSame : (birth.closure pedigree.returns).sameOrigin (birth'.closure pedigree'.returns) =
      decide (pedigree.birth = pedigree'.birth) := by
    rw [Bool.eq_iff_iff, same, decide_eq_true_iff]
  exact congrArg (fun equal => Except.ok (Value.bool equal)) isSame

/-- A function that makes a function, called. -/
def Lineage.oneCall : Program := [.expr (.call (.fn [] [.expr (.fn [] [.expr (.int 1)])]) [])]

/-- A function that is returned from a call has captured the frame of the call, and is still equal
to what it was before: both are of the second birth. -/
theorem Program.functions_of_births_one_call :
    (parse "fn() \x7b fn() \x7b 1 \x7d \x7d()").toExcept = .ok Lineage.oneCall ∧
      (Lineage.run 1 Lineage.oneCall).Occurs
        ⟨.function ⟨[], [.expr (.int 1)], [0, 0, 0, 0], ⟨1⟩, []⟩, some ⟨1, []⟩⟩ ∧
      (Lineage.run 1 Lineage.oneCall).Occurs
        ⟨.function ⟨[], [.expr (.int 1)], [0, 0, 0, 0], ⟨1⟩, [⟨1⟩]⟩, some ⟨1, [⟨1⟩]⟩⟩ ∧
      InfixOp.equal.apply (.function ⟨[], [.expr (.int 1)], [0, 0, 0, 0], ⟨1⟩, []⟩)
        (.function ⟨[], [.expr (.int 1)], [0, 0, 0, 0], ⟨1⟩, [⟨1⟩]⟩) = .ok (.bool true) := by
  have isFirst : (Lineage.run 1 Lineage.oneCall).world.record.seen[1]? =
      some ⟨.function ⟨[], [.expr (.int 1)], [0, 0, 0, 0], ⟨1⟩, []⟩, some ⟨1, []⟩⟩ := by cbv
  have isItem : (Lineage.run 1 Lineage.oneCall).item =
      some ⟨.function ⟨[], [.expr (.int 1)], [0, 0, 0, 0], ⟨1⟩, [⟨1⟩]⟩, some ⟨1, [⟨1⟩]⟩⟩ := by cbv
  have before : (Lineage.run 1 Lineage.oneCall).Occurs _ := Or.inl (List.mem_of_getElem? isFirst)
  have after : (Lineage.run 1 Lineage.oneCall).Occurs _ := Or.inr (Or.inl isItem)
  have lineages := Program.functions_of_births 1 Lineage.oneCall
  exact ⟨by cbv, before, after, lineages.2.2.2 _ _ _ _ before after⟩

end Monkey
