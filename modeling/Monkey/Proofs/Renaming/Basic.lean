/-
# Other names inside a function literal

The names inside one function literal of a program are changed, in its parameter list and in
every let and use in its body, the literals inside it included. Whether a name is inside the
literal is a matter of places alone: the place of the literal is on the way down to it. So a
function value tells by the place of its own literal what its written form has become, and
nothing has to be known of the frame that is its home.
-/

import Monkey.Proofs.Program.Canonical
import Monkey.Proofs.Program.Literals
import Monkey.Session

namespace Monkey

/-- A change of the names inside a function literal. -/
structure Renaming where
  literal : Literal
  change : String → String

namespace Renaming

variable (r : Renaming) (site : Site)

/-- One name in place of another. -/
def replace (literal : Literal) (old new : String) : Renaming where
  literal := literal
  change name := if name = old then new else name

/-- Whether a literal at this site is the one that is changed, or inside it. -/
def covers : Bool := r.literal.site.isSuffixOf site

/-- Whether a name at this site is in the body of the literal that is changed. -/
def surrounds : Bool := site != r.literal.site && r.covers site

/-- What becomes of a name, inside the literal or outside. -/
def name (inside : Bool) (name : String) : String := if inside then r.change name else name

theorem surrounds_of_ne {site : Site} (elsewhere : site ≠ r.literal.site) :
    r.surrounds site = r.covers site := by
  rw [surrounds, bne_iff_ne.mpr elsewhere, Bool.true_and]

/-- What is below the literal is in its body. -/
@[simp]
theorem surrounds_child (index : Nat) : r.surrounds (site.child index) = r.covers site := by
  have isSuffix : r.literal.site <:+ site.child index ↔
      r.literal.site = site.child index ∨ r.literal.site <:+ site := List.suffix_cons_iff
  rw [Bool.eq_iff_iff, surrounds, covers, covers, Bool.and_eq_true, bne_iff_ne,
    List.isSuffixOf_iff_suffix, List.isSuffixOf_iff_suffix, isSuffix]
  constructor
  · rintro ⟨elsewhere, same | below⟩
    · exact absurd same.symm elsewhere
    · exact below
  · intro below
    refine ⟨?_, Or.inr below⟩
    intro same
    rw [← same] at below
    exact absurd below.length_le (Nat.not_succ_le_self _)

/-- Where the literal is not, what is below is inside it only if this is. -/
theorem covers_child {index : Nat} (elsewhere : site.child index ≠ r.literal.site) :
    r.covers (site.child index) = r.covers site :=
  (r.surrounds_of_ne elsewhere).symm.trans (r.surrounds_child site index)

theorem covers_of_surrounds {site : Site} (inside : r.surrounds site = true) :
    r.covers site = true :=
  (Bool.and_eq_true_iff.mp inside).2

end Renaming

/-! ## Trees -/

mutual

/-- An expression at a site, with other names where it is inside the literal. -/
def Expr.rename (r : Renaming) : Site → Expr → Expr
  | site, .ident name => .ident (r.name (r.surrounds site) name)
  | _, .int value => .int value
  | _, .bool value => .bool value
  | site, .prefixOp op operand => .prefixOp op (operand.rename r (site.child 0))
  | site, .infixOp op left right =>
    .infixOp op (left.rename r (site.child 0)) (right.rename r (site.child 1))
  | site, .ifElse condition consequence none =>
    .ifElse (condition.rename r (site.child 0)) (Stmt.renameList r (site.child 1) 0 consequence)
      none
  | site, .ifElse condition consequence (some alternative) =>
    .ifElse (condition.rename r (site.child 0)) (Stmt.renameList r (site.child 1) 0 consequence)
      (some (Stmt.renameList r (site.child 2) 0 alternative))
  | site, .fn parameters body =>
    .fn (parameters.map (r.name (r.covers site))) (Stmt.renameList r (site.child 0) 0 body)
  | site, .call callee arguments =>
    .call (callee.rename r (site.child 0)) (Expr.renameList r (site.child 1) 0 arguments)
  termination_by structural _ expr => expr

/-- A statement with other names where it is inside the literal. -/
def Stmt.rename (r : Renaming) : Site → Stmt → Stmt
  | site, .letBind name value => .letBind (r.name (r.surrounds site) name) (value.rename r site)
  | site, .ret value => .ret (value.rename r site)
  | site, .expr value => .expr (value.rename r site)
  termination_by structural _ stmt => stmt

/-- The same for statements that are numbered from `index` on. -/
def Stmt.renameList (r : Renaming) : Site → Nat → List Stmt → List Stmt
  | _, _, [] => []
  | site, index, stmt :: stmts =>
    stmt.rename r (site.child index) :: Stmt.renameList r site (index + 1) stmts
  termination_by structural _ _ stmts => stmts

/-- The same for expressions that are numbered from `index` on. -/
def Expr.renameList (r : Renaming) : Site → Nat → List Expr → List Expr
  | _, _, [] => []
  | site, index, expr :: exprs =>
    expr.rename r (site.child index) :: Expr.renameList r site (index + 1) exprs
  termination_by structural _ _ exprs => exprs

end

/-- A program with other names inside the literal, its statements numbered from `base` on. -/
def Program.rename (r : Renaming) (base : Nat) (program : Program) : Program :=
  Stmt.renameList r [] base program

/-- The names in the program have a property, those of parameters and lets included. -/
def Program.Names (property : String → Prop) (program : Program) : Prop :=
  Stmt.EveryOf (fun _ => True) property program

/-! ## Values -/

/-- A function of the changed program. It has the same home. -/
def Closure.rename (r : Renaming) (closure : Closure) : Closure :=
  { closure with
    parameters := closure.parameters.map (r.name (r.covers closure.site))
    body := Stmt.renameList r (closure.site.child 0) 0 closure.body }

/-- A value of the changed program. It differs in the names that a function is written with. -/
def Value.rename (r : Renaming) : Value → Value
  | .function closure => .function (closure.rename r)
  | value => value

/-- What the changed program ends with. -/
def Outcome.rename (r : Renaming) : Outcome → Outcome
  | .value result => .value (result.rename r)
  | .returned result => .returned (result.rename r)
  | .failed fault => .failed fault
  | .tooDeep => .tooDeep

namespace Value

variable (r : Renaming) (value : Value)

@[simp]
theorem captured_rename : (value.rename r).captured = value.captured := by
  cases value <;> rfl

@[simp]
theorem truthy_rename : (value.rename r).truthy = value.truthy := by
  cases value <;> rfl

theorem rename_of_kind {value : Value} (plain : value.kind ≠ .function) :
    value.rename r = value := by
  cases value with
  | function closure => exact absurd rfl plain
  | _ => rfl

end Value

/-! ## Changes that agree -/

section

variable {literal : Literal} {first second : String → String} {property : String → Prop}
  (agree : ∀ name, property name → first name = second name)

include agree

-- In a mutual block every theorem takes all the assumptions that one of them uses.
set_option linter.unusedSectionVars false

theorem Renaming.name_congr (inside : Bool) {name : String} (isName : property name) :
    Renaming.name ⟨literal, first⟩ inside name = Renaming.name ⟨literal, second⟩ inside name := by
  cases inside with
  | false => rfl
  | true => exact agree name isName

mutual

/-- What becomes of a tree is a matter of its own names. -/
theorem Expr.rename_congr (site : Site) (expr : Expr)
    (names : expr.Every (fun _ => True) property) :
    expr.rename ⟨literal, first⟩ site = expr.rename ⟨literal, second⟩ site := by
  match expr with
  | .ident name => exact congrArg Expr.ident (Renaming.name_congr agree _ names.2)
  | .int _ => rfl
  | .bool _ => rfl
  | .prefixOp op operand =>
      exact congrArg (Expr.prefixOp op) (Expr.rename_congr _ operand names.2)
  | .infixOp op left right =>
      obtain ⟨-, isLeft, isRight⟩ := names
      exact congrArg₂ (Expr.infixOp op) (Expr.rename_congr _ left isLeft)
        (Expr.rename_congr _ right isRight)
  | .ifElse condition consequence none =>
      obtain ⟨-, isCondition, isConsequence⟩ := names
      rw [Expr.rename, Expr.rename, Expr.rename_congr _ condition isCondition,
        Stmt.renameList_congr _ 0 consequence isConsequence]
  | .ifElse condition consequence (some alternative) =>
      obtain ⟨-, isCondition, isConsequence, isAlternative⟩ := names
      rw [Expr.rename, Expr.rename, Expr.rename_congr _ condition isCondition,
        Stmt.renameList_congr _ 0 consequence isConsequence,
        Stmt.renameList_congr _ 0 alternative isAlternative]
  | .fn parameters body =>
      obtain ⟨-, isParameter, isBody⟩ := names
      refine congrArg₂ Expr.fn ?_ (Stmt.renameList_congr _ 0 body isBody)
      refine List.map_congr_left fun name isName => ?_
      exact Renaming.name_congr agree _ (isParameter name isName)
  | .call callee arguments =>
      obtain ⟨-, isCallee, isArguments⟩ := names
      exact congrArg₂ Expr.call (Expr.rename_congr _ callee isCallee)
        (Expr.renameList_congr _ 0 arguments isArguments)

theorem Stmt.rename_congr (site : Site) (stmt : Stmt)
    (names : stmt.Every (fun _ => True) property) :
    stmt.rename ⟨literal, first⟩ site = stmt.rename ⟨literal, second⟩ site := by
  match stmt with
  | .letBind name value =>
      exact congrArg₂ Stmt.letBind (Renaming.name_congr agree _ names.1)
        (Expr.rename_congr site value names.2)
  | .ret value => exact congrArg Stmt.ret (Expr.rename_congr site value names)
  | .expr value => exact congrArg Stmt.expr (Expr.rename_congr site value names)

theorem Stmt.renameList_congr (site : Site) (index : Nat) (stmts : List Stmt)
    (names : Stmt.EveryOf (fun _ => True) property stmts) :
    Stmt.renameList ⟨literal, first⟩ site index stmts =
      Stmt.renameList ⟨literal, second⟩ site index stmts := by
  match stmts with
  | [] => rfl
  | stmt :: stmts =>
      exact congrArg₂ List.cons (Stmt.rename_congr _ stmt names.1)
        (Stmt.renameList_congr site (index + 1) stmts names.2)

theorem Expr.renameList_congr (site : Site) (index : Nat) (exprs : List Expr)
    (names : Expr.EveryOf (fun _ => True) property exprs) :
    Expr.renameList ⟨literal, first⟩ site index exprs =
      Expr.renameList ⟨literal, second⟩ site index exprs := by
  match exprs with
  | [] => rfl
  | expr :: exprs =>
      exact congrArg₂ List.cons (Expr.rename_congr _ expr names.1)
        (Expr.renameList_congr site (index + 1) exprs names.2)

end

end

end Monkey
