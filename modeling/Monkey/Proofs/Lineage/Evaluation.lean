/-
# Evaluation with a record goes side by side

Without the record, the evaluation that keeps one has the same results and goes through the same
stores as the plain one, step by step, and its world stays sound. The parts of a construct are
different places and are evaluated one after the other, each at most once, so the literals in
them are kept apart. What a call does is a parameter here: it is to add births in new frames only.
-/

import Mathlib
import Monkey.Proofs.Eval.Discipline
import Monkey.Proofs.Eval.Steps
import Monkey.Proofs.Lineage.Faithful

namespace Monkey

namespace Lineage

/-- A signal without a pedigree. -/
def Signal.plain : Signal → Monkey.Signal
  | returned item => .returned item.value
  | failed fault => .failed fault
  | tooDeep => .tooDeep

/-- A signal that hands out a faithful item if it hands out any. -/
def Signal.Faithful (record : Record) : Signal → Prop
  | returned item => record.Faithful item
  | _ => True

/-- The places at and below a place. -/
def Below (site place : Site) : Prop := site <:+ place

/-- The places below children of a place that are numbered from `index` on. -/
def From (site : Site) (index : Nat) (place : Site) : Prop :=
  ∃ number, index ≤ number ∧ Below (site.child number) place

theorem Below.parent (number : Nat) {site place : Site}
    (below : Below (site.child number) place) : Below site place :=
  (List.suffix_cons number site).trans below

theorem From.below {site place : Site} {index : Nat} (numbered : From site index place) :
    Below site place := by
  obtain ⟨number, -, below⟩ := numbered
  exact below.parent number

theorem From.next {site place : Site} {index : Nat} (numbered : From site (index + 1) place) :
    From site index place := by
  obtain ⟨number, isNumber, below⟩ := numbered
  exact ⟨number, Nat.le_of_succ_le isNumber, below⟩

theorem Below.not_from {site place : Site} {number index : Nat} (earlier : number < index)
    (below : Below (site.child number) place) : ¬ From site index place := by
  rintro ⟨other, isOther, elsewhere⟩
  have same := Literal.eq_of_below below elsewhere
  omega

theorem Below.not_below {site place : Site} {number other : Nat} (different : number ≠ other)
    (below : Below (site.child number) place) : ¬ Below (site.child other) place :=
  fun elsewhere => different (Literal.eq_of_below below elsewhere)

variable {α α' β β' : Type}

/-- A recorded ending goes with a plain one: without the record they are the same, births have
been added only where they may be, and the world is sound. -/
inductive Records (env : FrameId) (region : Site → Prop) (before : World) (forget : α → β)
    (good : Record → α → Prop) :
    EStateM.Result Signal World α → EStateM.Result Monkey.Signal Store β → Prop
  | value {result : α} {after : World} (grows : World.Grows env region before after)
    (sound : after.Sound) (isGood : good after.record result) :
    Records env region before forget good (.ok result after) (.ok (forget result) after.store)
  | signal {signal : Signal} {after : World} (grows : World.Grows env region before after)
    (sound : after.Sound) (isGood : signal.Faithful after.record) :
    Records env region before forget good (.error signal after) (.error signal.plain after.store)

namespace Records

variable {env : FrameId} {region part : Site → Prop} {world : World} {forget : α → β}
  {forget' : α' → β'} {good : Record → α → Prop} {good' : Record → α' → Prop}

theorem mono {ended : EStateM.Result Signal World α}
    {ended' : EStateM.Result Monkey.Signal Store β}
    (records : Records env part world forget good ended ended')
    (inside : ∀ site, part site → region site) :
    Records env region world forget good ended ended' := by
  cases records with
  | value grows sound isGood => exact .value (grows.mono inside) sound isGood
  | signal grows sound isGood => exact .signal (grows.mono inside) sound isGood

/-- What is recorded from a later world on is recorded from an earlier one on. -/
theorem later {between : World} {ended : EStateM.Result Signal World α}
    {ended' : EStateM.Result Monkey.Signal Store β}
    (records : Records env region between forget good ended ended')
    (grows : World.Grows env region world between) :
    Records env region world forget good ended ended' := by
  cases records with
  | value further sound isGood => exact .value (grows.trans further) sound isGood
  | signal further sound isGood => exact .signal (grows.trans further) sound isGood

theorem ofNewFrame {between : World} {ended : EStateM.Result Signal World α}
    {ended' : EStateM.Result Monkey.Signal Store β} {frame : FrameId}
    (records : Records frame part between forget good ended ended')
    (grows : World.Grows env region world between)
    (isNew : world.store.cells.size ≤ frame.index) :
    Records env region world forget good ended ended' := by
  cases records with
  | value further sound isGood => exact .value (further.ofNewFrame grows isNew) sound isGood
  | signal further sound isGood => exact .signal (further.ofNewFrame grows isNew) sound isGood

theorem bind {first : Eval α} {first' : Monkey.Eval β} {second : α → Eval α'}
    {second' : β → Monkey.Eval β'}
    (isFirst : Records env part world forget good (first world) (first' world.store))
    (inside : ∀ site, part site → region site)
    (isSecond : ∀ result after, World.Grows env part world after → after.Sound →
      good after.record result →
      Records env region after forget' good' (second result after)
        (second' (forget result) after.store)) :
    Records env region world forget' good' ((first >>= second) world)
      ((first' >>= second') world.store) := by
  show Records env region world forget' good' (EStateM.bind first second world)
    (EStateM.bind first' second' world.store)
  rw [EStateM.bind, EStateM.bind]
  generalize first world = ended at isFirst ⊢
  generalize first' world.store = ended' at isFirst ⊢
  cases isFirst with
  | signal grows sound isGood => exact .signal (grows.mono inside) sound isGood
  | value grows sound isGood => exact (isSecond _ _ grows sound isGood).later (grows.mono inside)

theorem pure (sound : world.Sound) {result : α} (isGood : good world.record result) :
    Records env region world forget good ((Pure.pure result : Eval α) world)
      ((Pure.pure (forget result) : Monkey.Eval β) world.store) :=
  .value (.refl world) sound isGood

theorem fail (sound : world.Sound) (fault : Fault) :
    Records env region world forget good (Lineage.fail fault world)
      (Monkey.Eval.fail fault world.store) :=
  .signal (.refl world) sound trivial

/-- Giving up holds afterwards is the same on both sides. -/
theorem releasing {after : World} (grows : World.Grows env region world after) (ids : List FrameId) :
    World.Grows env region world (after.onStore (·.release ids)) :=
  grows.trans (.ofStore rfl (Nat.le_of_eq (Store.size_release after.store ids).symm))

theorem holding (item : Item) {inner : Eval α} {inner' : Monkey.Eval β}
    (isInner : Records env region world forget good (inner world) (inner' world.store)) :
    Records env region world forget good (Lineage.holding item inner world)
      (Monkey.Eval.holding item.value inner' world.store) := by
  rw [Lineage.holding, Monkey.Eval.holding]
  generalize inner world = ended at isInner ⊢
  generalize inner' world.store = ended' at isInner ⊢
  cases isInner with
  | value grows sound isGood => exact .value (releasing grows _) (sound.release _) isGood
  | signal grows sound isGood => exact .signal (releasing grows _) (sound.release _) isGood

theorem keeping (item : Item) {inner : Eval α} {inner' : Monkey.Eval β}
    (isInner : Records env region world forget good (inner world) (inner' world.store)) :
    Records env region world forget good (Lineage.keeping item inner world)
      (Monkey.Eval.keeping item.value inner' world.store) := by
  rw [Lineage.keeping, Monkey.Eval.keeping]
  generalize inner world = ended at isInner ⊢
  generalize inner' world.store = ended' at isInner ⊢
  cases isInner with
  | value grows sound isGood => exact .value grows sound isGood
  | signal grows sound isGood => exact .signal (releasing grows _) (sound.release _) isGood

theorem noted {action : Eval Item} {action' : Monkey.Eval Value}
    (isAction : Records env region world Item.value Record.Faithful (action world)
      (action' world.store)) :
    Records env region world Item.value Record.Faithful (Lineage.noted action world)
      (action' world.store) := by
  have unfolded : Lineage.noted action world =
      match action world with
      | .ok item after => .ok item (after.see item)
      | .error stopped after => .error stopped after := by
    show EStateM.bind action _ world = _
    rw [EStateM.bind]
    cases action world <;> rfl
  rw [unfolded]
  generalize action world = ended at isAction ⊢
  generalize action' world.store = ended' at isAction ⊢
  cases isAction with
  | @value item after grows sound isGood =>
      have grows : World.Grows env region world (after.see item) :=
        grows.trans (.ofStore rfl (Nat.le_refl _))
      exact .value grows (sound.see isGood) isGood
  | signal grows sound isGood => exact .signal grows sound isGood

theorem lookup (sound : world.Sound) (name : String) :
    Records env region world Item.value Record.Faithful (Lineage.lookup env name world)
      (Monkey.Eval.lookup env name world.store) := by
  rw [lookup_apply, Monkey.Eval.lookup_apply, ← world.resolve_value]
  cases found : world.resolve env name with
  | none => exact .signal (.refl world) sound trivial
  | some item =>
      exact .value (.ofStore rfl (Nat.le_of_eq (Store.size_retain _ _).symm)) (sound.retain _)
        (sound.resolve found)

theorem bound (sound : world.Sound) (name : String) {item : Item}
    (faithful : world.record.Faithful item) :
    Records env region world Item.value Record.Faithful
      ((do Lineage.bind env name item; Pure.pure item : Eval Item) world)
      ((do Monkey.Eval.bind env name item.value; Pure.pure item.value : Monkey.Eval Value)
        world.store) := by
  have retained := sound.retain item.value.captured
  have size := (Store.size_define (world.store.retain item.value.captured) env name item.value).trans
    (Store.size_retain world.store item.value.captured)
  have grows : World.Grows env region world
      ((world.onStore (·.retain item.value.captured)).define env name item) :=
    .ofStore rfl (Nat.le_of_eq size.symm)
  exact .value grows (retained.define env name faithful) faithful

theorem ofExcept (sound : world.Sound) {applied : Except Fault Value}
    (noFunction : ∀ value, applied = .ok value → value.kind ≠ .function) :
    Records env region world Item.value Record.Faithful (Lineage.ofExcept applied world)
      (Monkey.Eval.ofExcept applied world.store) := by
  cases applied with
  | ok value => exact .value (.refl world) sound (.of_kind (noFunction value rfl))
  | error fault => exact .signal (.refl world) sound trivial

/-- A function is born with the literal and in the frame, and has not been returned. -/
theorem born (sound : world.Sound) {literal : Literal} (awaits : world.Awaits env region)
    (isInside : region literal.site) :
    Records env region world Item.value Record.Faithful (Lineage.born env literal world)
      ((Pure.pure (.function ⟨literal.parameters, literal.body, literal.site, env, []⟩) :
        Monkey.Eval Value) world.store) := by
  have grows : World.Grows env region world (world.enter ⟨literal, env⟩) := by
    refine ⟨List.prefix_append _ _, Nat.le_refl _, fun birth isBirth => ?_⟩
    rcases List.mem_append.mp isBirth with isEarlier | isLatest
    · exact Or.inl isEarlier
    · rw [List.mem_singleton.mp isLatest]
      exact Or.inr (Or.inl ⟨rfl, isInside⟩)
  refine .value grows (sound.enter awaits isInside) ?_
  rintro _ ⟨rfl⟩
  have isBirth : (world.enter ⟨literal, env⟩).record.births[world.record.births.length]? =
      some ⟨literal, env⟩ := List.getElem?_concat_length
  exact ⟨_, _, rfl, isBirth, rfl⟩

/-- A call that ends in a function adds its frame on both sides. -/
theorem inFrame (frame : FrameId) {body : Eval Item} {body' : Monkey.Eval Value}
    (isBody : Records env region world Item.value Record.Faithful (body world)
      (body' world.store)) :
    Records env region world Item.value Record.Faithful (Lineage.inFrame frame body world)
      (Monkey.Eval.inFrame frame body' world.store) := by
  have leaving {item : Item} {after : World} (grows : World.Grows env region world after)
      (sound : after.Sound) (faithful : after.record.Faithful item) :
      Records env region world Item.value Record.Faithful (Lineage.inFrame.leave frame item after)
        (Monkey.Eval.inFrame.leave frame item.value after.store) := by
    obtain ⟨value, pedigree⟩ := item
    cases value with
    | function closure => exact .value grows sound (faithful.returnedFrom frame)
    | _ => exact .value (releasing grows _) (sound.release _) faithful
  rw [Lineage.inFrame, Monkey.Eval.inFrame]
  generalize body world = ended at isBody ⊢
  generalize body' world.store = ended' at isBody ⊢
  cases isBody with
  | value grows sound isGood => exact leaving grows sound isGood
  | @signal signal after grows sound isGood =>
      cases signal with
      | returned item => exact leaving grows sound isGood
      | failed fault => exact .signal (releasing grows _) (sound.release _) trivial
      | tooDeep => exact .signal (releasing grows _) (sound.release _) trivial

end Records

/-! ## Trees -/

section

-- In a mutual block every theorem takes all the assumptions that one of them uses.
set_option linter.unusedSectionVars false

variable {call : Closure → List Item → Eval Item} {call' : Closure → List Value → Monkey.Eval Value}
  {env : FrameId}
  (calls : ∀ closure items world, World.Sound world → (∀ item ∈ items, world.record.Faithful item) →
    ∀ env region, Records env region world Item.value Record.Faithful (call closure items world)
      (call' closure (items.map Item.value) world.store))

include calls

mutual

theorem evalExpr_records (site : Site) (expr : Expr) {world : World} (sound : world.Sound)
    (awaits : world.Awaits env (Below site)) :
    Records env (Below site) world Item.value Record.Faithful (evalExpr call env site expr world)
      (expr.eval call' env site world.store) := by
  match expr with
  | .ident name => exact .noted (.lookup sound name)
  | .int value => exact .pure sound (.int value)
  | .bool value => exact .pure sound (.bool value)
  | .fn parameters body => exact .noted (.born sound awaits (List.suffix_refl site))
  | .prefixOp op operand =>
      rw [evalExpr, Expr.eval]
      have awaitsOperand := awaits.mono fun _ => Below.parent 0
      apply Records.bind (evalExpr_records _ operand sound awaitsOperand) fun _ => Below.parent 0
      intro item after _ sound _
      exact .holding item (.ofExcept sound fun value => PrefixOp.kind_of_apply)
  | .infixOp op left right =>
      rw [evalExpr, Expr.eval]
      have awaitsLeft := awaits.mono fun _ => Below.parent 0
      apply Records.bind (evalExpr_records _ left sound awaitsLeft) fun _ => Below.parent 0
      intro left after grows sound _
      have awaitsRight := (awaits.mono fun _ => Below.parent 1).grow grows
        fun _ => Below.not_below Nat.zero_ne_one
      apply Records.holding left
      apply Records.bind (evalExpr_records _ right sound awaitsRight) fun _ => Below.parent 1
      intro right last _ sound _
      exact .holding right (.ofExcept sound fun value => InfixOp.kind_of_apply)
  | .ifElse condition consequence none =>
      rw [evalExpr, Expr.eval]
      have awaitsCondition := awaits.mono fun _ => Below.parent 0
      apply Records.bind (evalExpr_records _ condition sound awaitsCondition) fun _ => Below.parent 0
      intro item after grows sound _
      have awaitsFirst := (awaits.mono fun _ => Below.parent 1).grow grows
        fun _ => Below.not_below Nat.zero_ne_one
      apply Records.holding item
      split
      · have first := evalBlock_records (site.child 1) 0 (.plain .null) consequence sound
          (awaitsFirst.mono fun _ => From.below) .null
        exact first.mono fun _ numbered => numbered.below.parent 1
      · exact .pure sound .null
  | .ifElse condition consequence (some alternative) =>
      rw [evalExpr, Expr.eval]
      have awaitsCondition := awaits.mono fun _ => Below.parent 0
      apply Records.bind (evalExpr_records _ condition sound awaitsCondition) fun _ => Below.parent 0
      intro item after grows sound _
      have awaitsFirst := (awaits.mono fun _ => Below.parent 1).grow grows
        fun _ => Below.not_below Nat.zero_ne_one
      have awaitsSecond := (awaits.mono fun _ => Below.parent 2).grow grows
        fun _ => Below.not_below (Nat.zero_ne_add_one 1)
      apply Records.holding item
      split
      · have first := evalBlock_records (site.child 1) 0 (.plain .null) consequence sound
          (awaitsFirst.mono fun _ => From.below) .null
        exact first.mono fun _ numbered => numbered.below.parent 1
      · have second := evalBlock_records (site.child 2) 0 (.plain .null) alternative sound
          (awaitsSecond.mono fun _ => From.below) .null
        exact second.mono fun _ numbered => numbered.below.parent 2
  | .call callee arguments =>
      rw [evalExpr, Expr.eval]
      have awaitsCallee := awaits.mono fun _ => Below.parent 0
      apply Records.bind (evalExpr_records _ callee sound awaitsCallee) fun _ => Below.parent 0
      intro item after grows sound _
      have awaitsArguments := (awaits.mono fun _ => Below.parent 1).grow grows
        fun _ => Below.not_below Nat.zero_ne_one
      apply Records.holding item
      cases item.value with
      | function closure =>
          have arguments := evalArguments_records (site.child 1) 0 arguments sound
            (awaitsArguments.mono fun _ => From.below)
          apply Records.bind arguments fun _ numbered => numbered.below.parent 1
          intro items last _ sound areFaithful
          exact .noted (calls closure items last sound areFaithful env _)
      | _ => exact .fail sound _
  termination_by structural expr

theorem evalStmt_records (site : Site) (stmt : Stmt) {world : World} (sound : world.Sound)
    (awaits : world.Awaits env (Below site)) :
    Records env (Below site) world Item.value Record.Faithful (evalStmt call env site stmt world)
      (stmt.eval call' env site world.store) := by
  match stmt with
  | .letBind name value =>
      rw [evalStmt, Stmt.eval]
      apply Records.bind (evalExpr_records site value sound awaits) fun _ => id
      intro item after _ sound faithful
      exact .bound sound name faithful
  | .ret value =>
      rw [evalStmt, Stmt.eval]
      apply Records.bind (evalExpr_records site value sound awaits) fun _ => id
      intro item after _ sound faithful
      exact .signal (.refl after) sound faithful
  | .expr value => exact evalExpr_records site value sound awaits
  termination_by structural stmt

theorem evalBlock_records (site : Site) (index : Nat) (before : Item) (stmts : List Stmt)
    {world : World} (sound : world.Sound) (awaits : world.Awaits env (From site index))
    (faithful : world.record.Faithful before) :
    Records env (From site index) world Item.value Record.Faithful
      (evalBlock call env site index before stmts world)
      (Stmt.evalList call' env site index before.value stmts world.store) := by
  match stmts with
  | [] => exact .pure sound faithful
  | stmt :: stmts =>
      rw [evalBlock, Stmt.evalList]
      have inside : ∀ place, Below (site.child index) place → From site index place :=
        fun _ below => ⟨index, Nat.le_refl _, below⟩
      apply Records.bind (.holding before (evalStmt_records _ stmt sound (awaits.mono inside))) inside
      intro item after grows sound faithful
      have awaitsOthers := (awaits.mono fun _ => From.next).grow grows
        fun _ => Below.not_from (Nat.lt_succ_self index)
      exact (evalBlock_records site (index + 1) item stmts sound awaitsOthers faithful).mono
        fun _ => From.next
  termination_by structural stmts

theorem evalArguments_records (site : Site) (index : Nat) (exprs : List Expr) {world : World}
    (sound : world.Sound) (awaits : world.Awaits env (From site index)) :
    Records env (From site index) world (List.map Item.value)
      (fun record items => ∀ item ∈ items, record.Faithful item)
      (evalArguments call env site index exprs world)
      (Expr.evalList call' env site index exprs world.store) := by
  match exprs with
  | [] => exact .pure sound (List.forall_mem_nil _)
  | expr :: exprs =>
      rw [evalArguments, Expr.evalList]
      have inside : ∀ place, Below (site.child index) place → From site index place :=
        fun _ below => ⟨index, Nat.le_refl _, below⟩
      apply Records.bind (evalExpr_records _ expr sound (awaits.mono inside)) inside
      intro item after grows sound faithful
      have awaitsOthers := (awaits.mono fun _ => From.next).grow grows
        fun _ => Below.not_from (Nat.lt_succ_self index)
      have others := evalArguments_records site (index + 1) exprs sound awaitsOthers
      apply Records.bind (.keeping item others) fun _ => From.next
      intro items last grows sound areFaithful
      exact .pure sound (List.forall_mem_cons.mpr ⟨faithful.mono grows.births, areFaithful⟩)
  termination_by structural exprs

end

end

end Lineage

end Monkey
