/-
# Evaluation does not depend on the names of parameters

A program and the one that has other names inside a literal end alike, with as deep calls as
they are granted. What is evaluated at a place has names changed if the place is inside the
literal, and it is evaluated in a frame that is inside then. This is kept on the way down the
tree, for there is nothing but the literal at its place, and it is so again in the frame of a
call, whose function tells by its own place where it was made.
-/

import Mathlib
import Monkey.Proofs.Eval.Built
import Monkey.Proofs.Eval.Depth
import Monkey.Proofs.Renaming.Alike

namespace Monkey

open Eval

variable {r : SafeRenaming} {known : FrameId → Bool} {held : List Hold}

/-! ## Trees -/

section

-- In a mutual block every theorem takes all the assumptions that one of them uses.
set_option linter.unusedSectionVars false

variable {call : Closure → List Value → Eval Value}
  (calls : ∀ known held closure arguments, Hold.value (.function closure) ∈ held →
    Eval.Alike r known held (Hold.values arguments) (call closure arguments)
      (call (closure.rename r) (arguments.map (Value.rename r))) (fun value => [.value value])
      (Value.rename r))
  {env : FrameId}

include calls

mutual

theorem Expr.eval_alike {held : List Hold} (inScope : Hold.scope env ∈ held) (site : Site)
    (isKnown : known env = r.surrounds site) (expr : Expr)
    (names : expr.Every (fun _ => True) r.occurs)
    (placed : r.literal.Placed site (expr.literals site)) :
    Eval.Alike r known held [] (expr.eval call env site) ((expr.rename r site).eval call env site)
      (fun value => [.value value]) (Value.rename r) := by
  -- Below an expression that is no literal one is where the expression is.
  have inner (isNone : ∀ parameters body, expr ≠ .fn parameters body) :
      known env = r.covers site :=
    isKnown.trans (r.surrounds_of_ne (placed.ne_of_expr isNone))
  match expr with
  | .ident name =>
      rw [Expr.rename, Expr.eval, Expr.eval, ← isKnown]
      exact .lookup inScope names.2
  | .int value => exact .plain (by simp [Value.kind])
  | .bool value => exact .plain (by simp [Value.kind])
  | .fn parameters body => exact .literal inScope isKnown names placed
  | .prefixOp op operand =>
      have isInner := inner nofun
      rw [Expr.rename, Expr.eval, Expr.eval]
      apply Alike.bind (Expr.eval_alike inScope _ (isInner.trans (r.surrounds_child site 0).symm)
        operand names.2 placed.numbered.alone)
      intro operand
      apply Alike.holding
      rw [op.apply_rename r]
      exact .ofExcept fun value => PrefixOp.kind_of_apply
  | .infixOp op left right =>
      have isInner := inner nofun
      obtain ⟨-, isLeft, isRight⟩ := names
      rw [Expr.rename, Expr.eval, Expr.eval]
      apply Alike.bind (Expr.eval_alike inScope _ (isInner.trans (r.surrounds_child site 0).symm)
        left isLeft (placed.numbered.head (right.literals_below _).from))
      intro left
      apply Alike.holding
      have inScope := List.mem_cons_of_mem (Hold.value left) inScope
      apply Alike.bind (Expr.eval_alike inScope _ (isInner.trans (r.surrounds_child site 1).symm)
        right isRight (placed.numbered.tail (Expr.literals_below _ _)).alone)
      intro right
      apply Alike.holding
      rw [op.apply_rename r]
      exact .ofExcept fun value => InfixOp.kind_of_apply
  | .ifElse condition consequence none =>
      have isInner := inner nofun
      obtain ⟨-, isCondition, isConsequence⟩ := names
      rw [Expr.rename, Expr.eval, Expr.eval]
      apply Alike.bind (Expr.eval_alike inScope _ (isInner.trans (r.surrounds_child site 0).symm)
        condition isCondition
        (placed.numbered.head (Stmt.literalsList_from _ 0 consequence).below.from))
      intro condition
      apply Alike.holding
      have inScope := List.mem_cons_of_mem (Hold.value condition) inScope
      have branch := (placed.numbered.tail (Expr.literals_below _ _)).alone
      rw [condition.truthy_rename]
      split
      · apply Alike.startNull
        exact Stmt.evalList_alike inScope _ (isInner.trans (r.covers_child site
          (branch.ne (Stmt.literalsList_from _ 0 consequence))).symm) 0 .null consequence
          isConsequence branch.numbered
      · exact .plain (by simp [Value.kind])
  | .ifElse condition consequence (some alternative) =>
      have isInner := inner nofun
      obtain ⟨-, isCondition, isConsequence, isAlternative⟩ := names
      have later := Stmt.literalsList_from (site.child 1) 0 consequence
      have last := Stmt.literalsList_from (site.child 2) 0 alternative
      have branches := placed.numbered.tail (Expr.literals_below _ condition)
      have first := branches.head last.below.from
      have second := (branches.tail later.below).alone
      rw [Expr.rename, Expr.eval, Expr.eval]
      apply Alike.bind (Expr.eval_alike inScope _ (isInner.trans (r.surrounds_child site 0).symm)
        condition isCondition
        (placed.numbered.head (later.below.from.append (last.below.from.mono (Nat.le_succ 1)))))
      intro condition
      apply Alike.holding
      have inScope := List.mem_cons_of_mem (Hold.value condition) inScope
      rw [condition.truthy_rename]
      split
      · apply Alike.startNull
        exact Stmt.evalList_alike inScope _ (isInner.trans (r.covers_child site
          (first.ne later)).symm) 0 .null consequence isConsequence first.numbered
      · apply Alike.startNull
        exact Stmt.evalList_alike inScope _ (isInner.trans (r.covers_child site
          (second.ne last)).symm) 0 .null alternative isAlternative second.numbered
  | .call callee arguments =>
      have isInner := inner nofun
      obtain ⟨-, isCallee, areArguments⟩ := names
      rw [Expr.rename, Expr.eval, Expr.eval]
      apply Alike.bind (Expr.eval_alike inScope _ (isInner.trans (r.surrounds_child site 0).symm)
        callee isCallee (placed.numbered.head (Expr.literalsList_from _ 0 arguments).below.from))
      intro callee
      apply Alike.holding
      have placed := (placed.numbered.tail (Expr.literals_below _ _)).alone
      cases callee with
      | function closure =>
          have inScope := List.mem_cons_of_mem (Hold.value (.function closure)) inScope
          apply Alike.bind (Expr.evalList_alike inScope _ (isInner.trans (r.covers_child site
            (placed.ne (Expr.literalsList_from _ 0 arguments))).symm) 0 arguments areArguments
            placed.numbered)
          exact fun values => calls _ _ closure values List.mem_cons_self
      | _ => exact .signal (.failed (.notAFunction _)) _ _

theorem Stmt.eval_alike {held : List Hold} (inScope : Hold.scope env ∈ held) (site : Site)
    (isKnown : known env = r.surrounds site) (stmt : Stmt)
    (names : stmt.Every (fun _ => True) r.occurs)
    (placed : r.literal.Placed site (stmt.literals site)) :
    Eval.Alike r known held [] (stmt.eval call env site) ((stmt.rename r site).eval call env site)
      (fun value => [.value value]) (Value.rename r) := by
  match stmt with
  | .letBind name value =>
      rw [Stmt.rename, Stmt.eval, Stmt.eval, ← isKnown]
      apply Alike.bind (Expr.eval_alike inScope site isKnown value names.2 placed)
      intro value
      apply Alike.bind (.bindName inScope name value)
      intro _
      exact .value (fun value => [.value value]) value (Value.rename r)
  | .ret value =>
      rw [Stmt.rename, Stmt.eval, Stmt.eval]
      apply Alike.bind (Expr.eval_alike inScope site isKnown value names placed)
      intro value
      exact .signal (.returned value) _ _
  | .expr value => exact Expr.eval_alike inScope site isKnown value names placed

theorem Stmt.evalList_alike {held : List Hold} (inScope : Hold.scope env ∈ held) (site : Site)
    (isKnown : known env = r.covers site) (index : Nat) (before : Value) (stmts : List Stmt)
    (names : Stmt.EveryOf (fun _ => True) r.occurs stmts)
    (placed : r.literal.PlacedFrom site index (Stmt.literalsList site index stmts)) :
    Eval.Alike r known held [.value before] (Stmt.evalList call env site index before stmts)
      (Stmt.evalList call env site index (before.rename r) (Stmt.renameList r site index stmts))
      (fun value => [.value value]) (Value.rename r) := by
  match stmts with
  | [] => exact .value (fun value => [.value value]) before (Value.rename r)
  | stmt :: stmts =>
      rw [Stmt.renameList, Stmt.evalList, Stmt.evalList]
      have inner := List.mem_cons_of_mem (Hold.value before) inScope
      have isFirst := Stmt.eval_alike inner (site.child index)
        (isKnown.trans (r.surrounds_child site index).symm) stmt names.1
        (placed.head (Stmt.literalsList_from site (index + 1) stmts))
      exact .bind (.holding isFirst) fun value => Stmt.evalList_alike inScope site isKnown
        (index + 1) value stmts names.2 (placed.tail (Stmt.literals_below _ stmt))

theorem Expr.evalList_alike {held : List Hold} (inScope : Hold.scope env ∈ held) (site : Site)
    (isKnown : known env = r.covers site) (index : Nat) (exprs : List Expr)
    (names : Expr.EveryOf (fun _ => True) r.occurs exprs)
    (placed : r.literal.PlacedFrom site index (Expr.literalsList site index exprs)) :
    Eval.Alike r known held [] (Expr.evalList call env site index exprs)
      (Expr.evalList call env site index (Expr.renameList r site index exprs)) Hold.values
      (List.map (Value.rename r)) := by
  match exprs with
  | [] => exact .value Hold.values [] (List.map (Value.rename r))
  | expr :: exprs =>
      rw [Expr.renameList, Expr.evalList, Expr.evalList]
      apply Alike.bind (Expr.eval_alike inScope (site.child index)
        (isKnown.trans (r.surrounds_child site index).symm) expr names.1
        (placed.head (Expr.literalsList_from site (index + 1) exprs)))
      intro value
      have inner := List.mem_cons_of_mem (Hold.value value) inScope
      apply Alike.bind (.keeping (Expr.evalList_alike inner site isKnown (index + 1) exprs names.2
        (placed.tail (Expr.literals_below _ expr))))
      intro values
      exact .value Hold.values (value :: values) (List.map (Value.rename r))

end

end

/-- The frame of a call is inside the literal if the function was made by it or inside it. -/
theorem Closure.apply_alike (depth : Nat) (known : FrameId → Bool) (held : List Hold)
    (closure : Closure) (arguments : List Value)
    (isHeld : Hold.value (.function closure) ∈ held) :
    Eval.Alike r known held (Hold.values arguments) (Closure.apply depth closure arguments)
      (Closure.apply depth (closure.rename r) (arguments.map (Value.rename r)))
      (fun value => [.value value]) (Value.rename r) := by
  induction depth generalizing known held closure arguments with
  | zero => exact fun store store' alike => .signal .tooDeep alike.dropAll
  | succ depth ih =>
      intro store store' alike
      by_cases fits : closure.parameters.length = arguments.length
      · have fits' : (closure.rename r).parameters.length =
            (arguments.map (Value.rename r)).length := by
          rw [Closure.rename, List.length_map, List.length_map, fits]
        have sameHome : store'.isLive (closure.rename r).home = store.isLive closure.home :=
          alike.isLive closure.home
        cases live : store.isLive closure.home with
        | false =>
            rw [Closure.apply_of_released depth fits live,
              Closure.apply_of_released depth fits' (sameHome.trans live)]
            exact .signal (.failed .releasedEnvironment) alike.dropAll
        | true =>
            rw [Closure.apply_of_live depth fits live,
              Closure.apply_of_live depth fits' (sameHome.trans live), alike.callFrame]
            obtain ⟨names, placed⟩ := alike.code (List.mem_append_right _ isHeld)
            have inner := placed.inner
            have isKnown : Function.update known (Closure.callFrame store)
                (r.covers closure.site) (Closure.callFrame store) =
                r.covers (closure.site.child 0) := by
              rw [Function.update_self, r.covers_child closure.site
                (inner.ne (Stmt.literalsList_from _ 0 closure.body))]
            have isBody := Alike.startNull (Stmt.evalList_alike ih
              (List.mem_cons_self (l := held)) _ isKnown 0 .null closure.body names.2.2
              inner.numbered)
            exact Alike.forget (Alike.inFrame isBody _ _ (alike.enterCall isHeld fits live))
              alike.notMem_callFrame (fun _ _ => by simp)
      · have wrong : (closure.rename r).parameters.length ≠
            (arguments.map (Value.rename r)).length := by
          rw [Closure.rename, List.length_map, List.length_map]
          exact fits
        rw [Closure.apply_of_wrongCount depth fits, Closure.apply_of_wrongCount depth wrong,
          Closure.rename, List.length_map, List.length_map]
        exact .signal (.failed _) alike.dropAll

/-! ## Programs -/

/-- A program and the changed one end alike, and no names but those that occur come out. -/
theorem Program.outcome_rename (depth : Nat) {env : FrameId} (inScope : Hold.scope env ∈ held)
    (isOutside : known env = false) (base : Nat) {program : Program}
    (names : program.Names r.occurs) (isLiteral : r.literal ∈ program.literals base)
    {store store' : Store} (alike : store.Alike r known held store') :
    (((program.rename r base).eval depth env base).outcome store').1 =
        ((program.eval depth env base).outcome store).1.rename r ∧
      ∀ closure, ((program.eval depth env base).outcome store).1.value? = some (.function closure) →
        (Expr.fn closure.parameters closure.body).Every (fun _ => True) r.occurs := by
  have isKnown : known env = r.covers [] := by
    have elsewhere := (Stmt.literalsList_from [] base program).ne isLiteral
    rw [isOutside, Renaming.covers]
    refine (Bool.eq_false_iff.mpr fun isSuffix => ?_).symm
    exact elsewhere (List.suffix_nil.mp (List.isSuffixOf_iff_suffix.mp isSuffix)).symm
  have ended := Alike.startNull (Stmt.evalList_alike (Closure.apply_alike depth) inScope []
    isKnown base .null program names fun _ _ _ => isLiteral) store store' alike
  unfold Eval.outcome
  unfold Program.eval Program.rename
  rw [show Value.null.rename r.toRenaming = .null from rfl] at ended
  generalize Stmt.evalList (Closure.apply depth) env [] base .null program store = reached
    at ended ⊢
  generalize Stmt.evalList (Closure.apply depth) env [] base .null
    (Stmt.renameList r.toRenaming [] base program) store' = reached' at ended ⊢
  cases ended with
  | value result alike =>
      refine ⟨rfl, fun closure isResult => ?_⟩
      cases isResult
      exact (alike.code List.mem_cons_self).1
  | signal signal alike =>
      cases signal with
      | returned value =>
          refine ⟨rfl, fun closure isResult => ?_⟩
          cases isResult
          exact (alike.code List.mem_cons_self).1
      | failed fault => exact ⟨rfl, fun _ isResult => by cases isResult⟩
      | tooDeep => exact ⟨rfl, fun _ isResult => by cases isResult⟩

/-- Nothing is bound at the start, so there is nothing to change. -/
theorem Session.start_alike (r : SafeRenaming) :
    start.store.Alike r (fun _ => false) [.scope start.global] start.store := by
  have frames {id contents} (isContents : start.store.contents? id = some contents) :
      contents = ⟨.empty, none⟩ := by
    rcases Store.contents?_of_alloc isContents with ⟨-, isEmpty⟩ | isEarlier
    · exact isEmpty
    · simp [Store.contents?, Store.frame?, Store.empty] at isEarlier
  refine ⟨fun _ => false, ⟨start_built.balanced, ?_, ?_, ?_, ?_⟩, fun _ _ => rfl, ?_⟩
  · intro value isHeld
    cases List.mem_singleton.mp isHeld
  · intro id contents value isContents isBound
    cases frames isContents
    cases isBound
  · intro id contents around isContents isOuter
    cases frames isContents
    cases isOuter
  · intro id contents _ isInside
    cases isInside
  · exact congrArg Prod.snd (Store.empty.alloc_rename r (fun _ => false) none)

/-! ## One name in place of another -/

/-- A parameter and a name that does not occur are exchanged. -/
def SafeRenaming.exchange (literal : Literal) {old : String} (new : String)
    (isParameter : old ∈ literal.parameters) : SafeRenaming where
  literal := literal
  change := Equiv.swap old new
  occurs name := name ≠ new
  injective := (Equiv.swap old new).injective
  isParameter name isOther moved := by
    have isOld : name = old := by
      by_contra different
      exact moved (Equiv.swap_apply_of_ne_of_ne different isOther)
    rwa [isOld]

/-- Where the new name does not occur, it takes the place of the old one. -/
theorem SafeRenaming.exchange_eq_replace (literal : Literal) {old new : String}
    (isParameter : old ∈ literal.parameters) (name : String) (isOther : name ≠ new) :
    (exchange literal new isParameter).change name =
      (Renaming.replace literal old new).change name :=
  (Equiv.swap_apply_def old new name).trans (by rw [if_neg isOther]; rfl)

theorem Outcome.eq_tooDeep_of_rename {r : Renaming} {outcome : Outcome}
    (tooDeep : outcome.rename r = .tooDeep) : outcome = .tooDeep := by
  cases outcome with
  | tooDeep => rfl
  | _ => cases tooDeep

/-- What a run ends with is told apart by its own names. -/
theorem Outcome.rename_congr {literal : Literal} {first second : String → String}
    {property : String → Prop} (agree : ∀ name, property name → first name = second name)
    {outcome : Outcome} (names : ∀ closure, outcome.value? = some (.function closure) →
      (Expr.fn closure.parameters closure.body).Every (fun _ => True) property) :
    outcome.rename ⟨literal, first⟩ = outcome.rename ⟨literal, second⟩ := by
  have values {value : Value} (isResult : outcome.value? = some value) :
      value.rename ⟨literal, first⟩ = value.rename ⟨literal, second⟩ := by
    cases value with
    | function closure =>
        have same : Expr.rename ⟨literal, first⟩ closure.site _ =
            Expr.rename ⟨literal, second⟩ _ _ :=
          Expr.rename_congr agree closure.site _ (names closure isResult)
        obtain ⟨parameters, body⟩ := Expr.fn.inj same
        rw [Value.rename, Value.rename, Closure.rename, Closure.rename, parameters, body]
    | _ => rfl
  cases outcome with
  | value result => exact congrArg Outcome.value (values rfl)
  | returned result => exact congrArg Outcome.returned (values rfl)
  | failed fault => rfl
  | tooDeep => rfl

/-- A parameter of a function literal can be given any name that does not occur in the program,
throughout the literal. The program ends as before, and a function that it ends with differs by
the new name. -/
theorem Session.start_replace {program : Program} {literal : Literal}
    (isLiteral : literal ∈ program.literals 0) {old new : String}
    (isParameter : old ∈ literal.parameters) (fresh : program.Names (· ≠ new)) :
    (∀ outcome after, program.Ends start.global 0 start.store outcome after →
      ∃ after', (program.rename (.replace literal old new) 0).Ends start.global 0 start.store
        (outcome.rename (.replace literal old new)) after') ∧
    ∀ outcome' after', (program.rename (.replace literal old new) 0).Ends start.global 0
        start.store outcome' after' →
      ∃ outcome after, program.Ends start.global 0 start.store outcome after ∧
        outcome' = outcome.rename (.replace literal old new) := by
  have sides (depth : Nat) : (((program.rename (.replace literal old new) 0).eval depth
      start.global 0).outcome start.store).1 =
        ((program.eval depth start.global 0).outcome start.store).1.rename
          (.replace literal old new) := by
    have agree (name : String) (isOther : name ≠ new) :=
      SafeRenaming.exchange_eq_replace literal isParameter name isOther
    obtain ⟨same, names⟩ := Program.outcome_rename depth List.mem_cons_self rfl 0 fresh isLiteral
      (start_alike (.exchange literal new isParameter))
    have renamed : program.rename (SafeRenaming.exchange literal new isParameter) 0 =
        program.rename (.replace literal old new) 0 :=
      Stmt.renameList_congr agree [] 0 program fresh
    rw [renamed] at same
    exact same.trans (Outcome.rename_congr agree names)
  constructor
  · rintro outcome after ⟨enough, depth, ended⟩
    have same := sides depth
    rw [ended] at same
    refine ⟨_, ?_, depth, Prod.ext same rfl⟩
    exact mt Outcome.eq_tooDeep_of_rename enough
  · rintro outcome' after' ⟨enough, depth, ended⟩
    have same := sides depth
    rcases isBefore : (program.eval depth start.global 0).outcome start.store with ⟨outcome, after⟩
    rw [ended, isBefore] at same
    refine ⟨outcome, after, ⟨?_, depth, isBefore⟩, same⟩
    rintro rfl
    exact enough same

/-- The inner one of two functions shows the new name of its parameter. -/
theorem Session.start_replace_adder :
    ∃ program after,
      (parse "let adder = fn(x) \x7b fn(z) \x7b x + z \x7d \x7d; adder(2)").toExcept = .ok program ∧
      (program.rename (.replace ⟨[0, 0, 0], ["z"],
        [.expr (.infixOp .plus (.ident "x") (.ident "z"))]⟩ "z" "y") 0).Ends start.global 0
        start.store (.value (.function ⟨["y"], [.expr (.infixOp .plus (.ident "x") (.ident "y"))],
          [0, 0, 0], ⟨1⟩, [⟨1⟩]⟩)) after := by
  let program : Program := [
    .letBind "adder" (.fn ["x"]
      [.expr (.fn ["z"] [.expr (.infixOp .plus (.ident "x") (.ident "z"))])]),
    .expr (.call (.ident "adder") [.int 2])]
  have isLiteral : ⟨[0, 0, 0], ["z"], [.expr (.infixOp .plus (.ident "x") (.ident "z"))]⟩ ∈
      program.literals 0 := by decide
  have fresh : program.Names (· ≠ "y") := by
    simp [program, Program.Names, Stmt.EveryOf, Stmt.Every, Expr.Every, Expr.EveryOf]
  have ended : program.Ends start.global 0 start.store (.value (.function ⟨["z"],
      [.expr (.infixOp .plus (.ident "x") (.ident "z"))], [0, 0, 0], ⟨1⟩, [⟨1⟩]⟩))
      ((program.eval 2 start.global 0).outcome start.store).2 :=
    ⟨by simp, 2, Prod.ext (by cbv) rfl⟩
  have isParameter : "z" ∈ ["z"] := List.mem_singleton.mpr rfl
  obtain ⟨after, ends⟩ := (start_replace isLiteral isParameter fresh).1 _ _ ended
  exact ⟨program, after, by cbv, ends⟩

end Monkey
