/-
# Records that are faithful

An item is faithful if its pedigree tells what its function is: the parameters, the body and
the home are those of the birth, and what it has captured are its returns. A world is sound if
everything that is bound or has been seen is faithful and no two births are of one literal in
one frame. For the last part it must be known which literals can still be evaluated where. An
evaluation is going on in some frame, in some region of the program, and new births are in
that region of that frame or else in frames that did not exist when it began. So it keeps away
from what is evaluated after it, in the regions beside its own, and from what was evaluated
before.
-/

import Monkey.Proofs.Lineage.Basic
import Monkey.Proofs.Renaming.Lexical

namespace Monkey

/-- What a name stands for after a name has been bound in some frame, live or not: the value, if
it is that name in that frame, and otherwise what it stood for. -/
theorem Store.find?_of_define {store : Store} {env id : FrameId} {name key : String}
    {value found : Value} {contents : Contents}
    (isContents : (store.define env name value).contents? id = some contents)
    (isBound : contents.bindings.find? key = some found) :
    ((id = env ∧ key = name) ∧ found = value) ∨
      (¬(id = env ∧ key = name) ∧ ∃ earlier, store.contents? id = some earlier ∧
        earlier.bindings.find? key = some found) := by
  cases isEnv : store.contents? env with
  | none =>
      have gone : store.frame? env = none := Option.map_eq_none_iff.mp isEnv
      rw [define, gone] at isContents
      have wasContents := contents?_of_release isContents
      refine Or.inr ⟨?_, contents, wasContents, isBound⟩
      rintro ⟨rfl, -⟩
      rw [isEnv] at wasContents
      cases wasContents
  | some here =>
      rw [contents?_define isEnv name value (isLive_of_contents? isContents)] at isContents
      split at isContents
      · next isHere =>
          cases isContents
          subst isHere
          by_cases isName : key = name
          · rw [isName, Bindings.find?_insert_self] at isBound
            exact Or.inl ⟨⟨rfl, isName⟩, (Option.some.inj isBound).symm⟩
          · rw [Bindings.find?_insert_of_ne _ _ isName] at isBound
            exact Or.inr ⟨fun same => isName same.2, here, isEnv, isBound⟩
      · next elsewhere =>
          exact Or.inr ⟨fun same => elsewhere same.1, contents, isContents, isBound⟩

/-- The function that has come from a birth, after some returns. -/
def Birth.closure (birth : Birth) (returns : List FrameId) : Closure :=
  ⟨birth.literal.parameters, birth.literal.body, birth.literal.site, birth.home, returns⟩

/-- An item whose function, if it is one, is what its pedigree says. -/
def Record.Faithful (record : Record) (item : Item) : Prop :=
  ∀ closure, item.value = .function closure →
    ∃ pedigree birth, item.pedigree = some pedigree ∧
      record.births[pedigree.birth]? = some birth ∧ closure = birth.closure pedigree.returns

namespace Record.Faithful

variable {record : Record} {item : Item}

theorem of_kind (noFunction : item.value.kind ≠ .function) : record.Faithful item := by
  intro closure isFunction
  rw [isFunction] at noFunction
  exact absurd rfl noFunction

theorem int (value : Int64) : record.Faithful (.plain (.int value)) := by rintro _ ⟨⟩

theorem bool (value : Bool) : record.Faithful (.plain (.bool value)) := by rintro _ ⟨⟩

theorem null : record.Faithful (.plain .null) := by rintro _ ⟨⟩

/-- Later births change nothing. -/
theorem mono (faithful : record.Faithful item) {after : Record}
    (births : record.births <+: after.births) : after.Faithful item := by
  intro closure isFunction
  obtain ⟨pedigree, birth, isPedigree, isBirth, isClosure⟩ := faithful closure isFunction
  obtain ⟨later, isAfter⟩ := births
  have isLater : after.births[pedigree.birth]? = some birth := by
    rw [← isAfter, List.getElem?_append_left (List.getElem?_eq_some_iff.mp isBirth).1]
    exact isBirth
  exact ⟨pedigree, birth, isPedigree, isLater, isClosure⟩

/-- A function that is returned from a call has one return more. -/
theorem returnedFrom {closure : Closure} {pedigree : Option Pedigree}
    (faithful : record.Faithful ⟨.function closure, pedigree⟩) (frame : FrameId) :
    record.Faithful ⟨.function (closure.returnedFrom frame),
      pedigree.map (Lineage.returnedFrom · frame)⟩ := by
  rintro _ ⟨rfl⟩
  obtain ⟨known, birth, rfl, isBirth, rfl⟩ := faithful closure rfl
  exact ⟨_, birth, rfl, isBirth, rfl⟩

end Record.Faithful

/-- Whether two births are not of one literal in one frame. -/
def Birth.Apart (first second : Birth) : Prop :=
  first.home = second.home → first.literal.site ≠ second.literal.site

namespace World

/-! ## Sound worlds -/

/-- Everything that is bound or has been seen is faithful, and no literal has been evaluated
twice in one frame. -/
structure Sound (world : World) : Prop where
  bound : ∀ {id contents name value}, world.store.contents? id = some contents →
    contents.bindings.find? name = some value →
    world.record.Faithful ⟨value, world.record.bound id name⟩
  seen : ∀ item ∈ world.record.seen, world.record.Faithful item
  apart : world.record.births.Pairwise Birth.Apart
  made : ∀ birth ∈ world.record.births, birth.home.index < world.store.cells.size

namespace Sound

variable {world : World} (sound : world.Sound)

include sound

/-- Changing the store does no harm if it binds nothing. -/
theorem onStore {change : Store → Store}
    (size : world.store.cells.size ≤ (change world.store).cells.size)
    (unchanged : ∀ {id contents}, (change world.store).contents? id = some contents →
      world.store.contents? id = some contents ∨ contents.bindings = .empty) :
    (world.onStore change).Sound where
  bound {id contents name value} isContents isBound := by
    rcases unchanged isContents with wasContents | isEmpty
    · exact sound.bound wasContents isBound
    · rw [isEmpty] at isBound
      cases isBound
  seen := sound.seen
  apart := sound.apart
  made birth isBirth := Nat.lt_of_lt_of_le (sound.made birth isBirth) size

theorem retain (ids : List FrameId) : (world.onStore (·.retain ids)).Sound := by
  refine sound.onStore (Nat.le_of_eq (Store.size_retain _ ids).symm) ?_
  intro id contents isContents
  rw [Store.contents?_retain] at isContents
  exact Or.inl isContents

theorem release (ids : List FrameId) : (world.onStore (·.release ids)).Sound :=
  sound.onStore (Nat.le_of_eq (Store.size_release _ ids).symm)
    fun isContents => Or.inl (Store.contents?_of_release isContents)

theorem alloc (outer : Option FrameId) :
    (world.onStore fun store => (store.alloc outer).2).Sound := by
  refine sound.onStore (Nat.le_of_lt (by rw [Store.size_alloc]; exact Nat.lt_succ_self _)) ?_
  intro id contents isContents
  rcases Store.contents?_of_alloc isContents with ⟨-, rfl⟩ | wasContents
  · exact Or.inr rfl
  · exact Or.inl wasContents

theorem define (env : FrameId) (name : String) {item : Item}
    (faithful : world.record.Faithful item) : (world.define env name item).Sound where
  bound {id contents key value} isContents isBound := by
    rcases Store.find?_of_define isContents isBound with ⟨isHere, rfl⟩ | ⟨elsewhere, earlier, was⟩
    · have latest : (world.define env name item).record.bound id key = item.pedigree :=
        if_pos isHere
      rw [latest]
      exact faithful
    · have asBefore : (world.define env name item).record.bound id key =
          world.record.bound id key := if_neg elsewhere
      rw [asBefore]
      exact sound.bound was.1 was.2
  seen := sound.seen
  apart := sound.apart
  made birth isBirth := Nat.lt_of_lt_of_le (sound.made birth isBirth)
    (Nat.le_of_eq (Store.size_define _ env name item.value).symm)

theorem defineAll (env : FrameId) {bindings : List (String × Item)}
    (faithful : ∀ binding ∈ bindings, world.record.Faithful binding.2) :
    (world.defineAll env bindings).Sound := by
  induction bindings generalizing world with
  | nil => exact sound
  | cons binding bindings ih =>
      obtain ⟨isFirst, areOthers⟩ := List.forall_mem_cons.mp faithful
      exact ih (sound.define env binding.1 isFirst) areOthers

theorem see {item : Item} (faithful : world.record.Faithful item) : (world.see item).Sound where
  bound := sound.bound
  seen other isOther := by
    rcases List.mem_append.mp isOther with isEarlier | isLatest
    · exact sound.seen other isEarlier
    · rwa [List.mem_singleton.mp isLatest]
  apart := sound.apart
  made := sound.made

end Sound

/-! ## Regions -/

/-- A later world, reached by evaluation in a frame within a region: new births are there, or in
frames that are new themselves. -/
structure Grows (env : FrameId) (region : Site → Prop) (before after : World) : Prop where
  births : before.record.births <+: after.record.births
  size : before.store.cells.size ≤ after.store.cells.size
  new : ∀ birth ∈ after.record.births, birth ∈ before.record.births ∨
    (birth.home = env ∧ region birth.literal.site) ∨
    before.store.cells.size ≤ birth.home.index

namespace Grows

variable {env : FrameId} {region : Site → Prop} {before after : World}

theorem ofStore (same : after.record.births = before.record.births)
    (size : before.store.cells.size ≤ after.store.cells.size) : Grows env region before after where
  births := by rw [same]
  size := size
  new birth isBirth := Or.inl (same ▸ isBirth)

theorem refl (world : World) : Grows env region world world := ofStore rfl (Nat.le_refl _)

theorem trans {between : World} (first : Grows env region before between)
    (second : Grows env region between after) : Grows env region before after where
  births := first.births.trans second.births
  size := Nat.le_trans first.size second.size
  new birth isBirth := by
    rcases second.new birth isBirth with isEarlier | isHere | isNew
    · exact first.new birth isEarlier
    · exact Or.inr (Or.inl isHere)
    · exact Or.inr (Or.inr (Nat.le_trans first.size isNew))

theorem mono (grows : Grows env region before after) {wider : Site → Prop}
    (inside : ∀ site, region site → wider site) : Grows env wider before after where
  births := grows.births
  size := grows.size
  new birth isBirth := (grows.new birth isBirth).imp_right
    (Or.imp_left fun isHere => ⟨isHere.1, inside _ isHere.2⟩)

/-- What went on in a frame that was not there before went on in a new frame. -/
theorem ofNewFrame (grows : Grows env region before after) {earlier : World} {other : FrameId}
    {elsewhere : Site → Prop} (first : Grows other elsewhere earlier before)
    (isNew : earlier.store.cells.size ≤ env.index) : Grows other elsewhere earlier after where
  births := first.births.trans grows.births
  size := Nat.le_trans first.size grows.size
  new birth isBirth := by
    rcases grows.new birth isBirth with isEarlier | ⟨isHome, -⟩ | isLater
    · exact first.new birth isEarlier
    · exact Or.inr (Or.inr (isHome ▸ isNew))
    · exact Or.inr (Or.inr (Nat.le_trans first.size isLater))

end Grows

/-- A frame that has been made, and in which no literal of a region has been evaluated. -/
structure Awaits (world : World) (env : FrameId) (region : Site → Prop) : Prop where
  made : env.index < world.store.cells.size
  fresh : ∀ birth ∈ world.record.births, birth.home = env → ¬ region birth.literal.site

namespace Awaits

variable {world after : World} {env : FrameId} {region done : Site → Prop}

theorem mono (awaits : world.Awaits env region) {part : Site → Prop}
    (inside : ∀ site, part site → region site) : world.Awaits env part where
  made := awaits.made
  fresh birth isBirth isHome isPart := awaits.fresh birth isBirth isHome (inside _ isPart)

/-- What was evaluated in another region leaves this one as it was. -/
theorem grow (awaits : world.Awaits env region) (grows : Grows env done world after)
    (apart : ∀ site, done site → ¬ region site) : after.Awaits env region where
  made := Nat.lt_of_lt_of_le awaits.made grows.size
  fresh birth isBirth isHome := by
    rcases grows.new birth isBirth with isEarlier | ⟨-, isDone⟩ | isNew
    · exact awaits.fresh birth isEarlier isHome
    · exact apart _ isDone
    · rw [isHome] at isNew
      exact absurd awaits.made (Nat.not_lt.mpr isNew)

/-- Nothing has been evaluated in a new frame. -/
theorem alloc (sound : world.Sound) (outer : Option FrameId) :
    (world.onStore fun store => (store.alloc outer).2).Awaits (world.store.alloc outer).1 region where
  made := by
    rw [onStore, Store.size_alloc]
    exact Nat.lt_succ_self _
  fresh birth isBirth isHome := by
    have older := sound.made birth isBirth
    rw [isHome] at older
    exact absurd older (Nat.lt_irrefl _)

end Awaits

/-- The birth of a function is its first. -/
theorem Sound.enter {world : World} (sound : world.Sound) {env : FrameId} {literal : Literal}
    {region : Site → Prop} (awaits : world.Awaits env region) (isInside : region literal.site) :
    (world.enter ⟨literal, env⟩).Sound where
  bound isContents isBound := (sound.bound isContents isBound).mono (List.prefix_append _ _)
  seen item isItem := (sound.seen item isItem).mono (List.prefix_append _ _)
  apart := by
    refine List.pairwise_append.mpr ⟨sound.apart, List.pairwise_singleton _ _, ?_⟩
    intro birth isBirth latest isLatest isHome isSite
    rw [List.mem_singleton.mp isLatest] at isHome isSite
    exact awaits.fresh birth isBirth isHome (isSite ▸ isInside)
  made birth isBirth := by
    rcases List.mem_append.mp isBirth with isEarlier | isLatest
    · exact sound.made birth isEarlier
    · rw [List.mem_singleton.mp isLatest]
      exact awaits.made

/-! ## Looking items up -/

/-- The item that is found is the value that is found, with a pedigree. -/
theorem resolve_value (world : World) (env : FrameId) (name : String) :
    (world.resolve env name).map Item.value = world.store.resolve env name := by
  fun_induction World.resolve world env name with
  | case1 env gone => rw [Store.resolve]; simp [gone]
  | case2 env frame isFrame value isBound => rw [Store.resolve]; simp [isFrame, isBound]
  | case3 env frame isFrame unbound outermost =>
      rw [Store.resolve]
      simp [isFrame, unbound, outermost]
  | case4 env frame isFrame unbound outer isOuter older ih =>
      rw [Store.resolve]
      simp [isFrame, unbound, isOuter, older, ih]
  | case5 env frame isFrame unbound outer isOuter younger =>
      rw [Store.resolve]
      simp [isFrame, unbound, isOuter, younger]

theorem Sound.resolve {world : World} (sound : world.Sound) {env : FrameId} {name : String}
    {item : Item} (found : world.resolve env name = some item) : world.record.Faithful item := by
  fun_induction World.resolve world env name with
  | case1 env gone => cases found
  | case2 env frame isFrame value isBound =>
      cases found
      exact sound.bound (Store.contents?_of_frame? isFrame) isBound
  | case3 env frame isFrame unbound outermost => cases found
  | case4 env frame isFrame unbound outer isOuter older ih => exact ih found
  | case5 env frame isFrame unbound outer isOuter younger => cases found

end World

end Monkey
