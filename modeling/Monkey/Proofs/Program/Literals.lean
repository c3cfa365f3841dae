/-
# The function literals of a program

A function literal is known by its place. Places are counted by statement and, inside a
statement, by the steps down to the literal, so a literal lies below the places of all the
constructs around it, and what lies below two children of one construct has different
places. So going down towards the place of a literal one meets the literal, and nothing else
is there.
-/

import Mathlib.Data.List.Infix
import Monkey.Store.Value

namespace Monkey

/-- A function literal, with its place. -/
structure Literal where
  site : Site
  parameters : List String
  body : Block
  deriving DecidableEq

mutual

/-- The function literals in an expression at a place, those inside others included. -/
def Expr.literals : Site → Expr → List Literal
  | _, .ident _ => []
  | _, .int _ => []
  | _, .bool _ => []
  | site, .prefixOp _ operand => operand.literals (site.child 0)
  | site, .infixOp _ left right => left.literals (site.child 0) ++ right.literals (site.child 1)
  | site, .ifElse condition consequence none =>
    condition.literals (site.child 0) ++ Stmt.literalsList (site.child 1) 0 consequence
  | site, .ifElse condition consequence (some alternative) =>
    condition.literals (site.child 0) ++ (Stmt.literalsList (site.child 1) 0 consequence ++
      Stmt.literalsList (site.child 2) 0 alternative)
  | site, .fn parameters body =>
    ⟨site, parameters, body⟩ :: Stmt.literalsList (site.child 0) 0 body
  | site, .call callee arguments =>
    callee.literals (site.child 0) ++ Expr.literalsList (site.child 1) 0 arguments
  termination_by structural _ expr => expr

/-- The function literals in a statement. -/
def Stmt.literals : Site → Stmt → List Literal
  | site, .letBind _ value => value.literals site
  | site, .ret value => value.literals site
  | site, .expr value => value.literals site
  termination_by structural _ stmt => stmt

/-- The function literals in statements that are numbered from `index` on. -/
def Stmt.literalsList : Site → Nat → List Stmt → List Literal
  | _, _, [] => []
  | site, index, stmt :: stmts =>
    stmt.literals (site.child index) ++ Stmt.literalsList site (index + 1) stmts
  termination_by structural _ _ stmts => stmts

/-- The function literals in expressions that are numbered from `index` on. -/
def Expr.literalsList : Site → Nat → List Expr → List Literal
  | _, _, [] => []
  | site, index, expr :: exprs =>
    expr.literals (site.child index) ++ Expr.literalsList site (index + 1) exprs
  termination_by structural _ _ exprs => exprs

end

/-- The function literals of a program whose statements are numbered from `base` on. -/
def Program.literals (base : Nat) (program : Program) : List Literal :=
  Stmt.literalsList [] base program

/-! ## Places below others -/

/-- The literals are at the place or below it. -/
def Literal.AllBelow (site : Site) (literals : List Literal) : Prop :=
  ∀ literal ∈ literals, site <:+ literal.site

/-- The literals are below children of the place that are numbered from `index` on. -/
def Literal.AllFrom (site : Site) (index : Nat) (literals : List Literal) : Prop :=
  ∀ literal ∈ literals, ∃ number, index ≤ number ∧ site.child number <:+ literal.site

namespace Literal

variable {site : Site} {index : Nat} {first second : List Literal}

theorem AllBelow.from (below : AllBelow (site.child index) first) : AllFrom site index first :=
  fun literal isLiteral => ⟨index, Nat.le_refl _, below literal isLiteral⟩

theorem AllFrom.below (numbered : AllFrom site index first) : AllBelow site first := by
  intro literal isLiteral
  obtain ⟨number, -, isBelow⟩ := numbered literal isLiteral
  exact (List.suffix_cons number site).trans isBelow

theorem AllFrom.append (isFirst : AllFrom site index first) (isSecond : AllFrom site index second) :
    AllFrom site index (first ++ second) := by
  intro literal isLiteral
  exact (List.mem_append.mp isLiteral).elim (isFirst literal) (isSecond literal)

theorem AllFrom.mono {more : Nat} (numbered : AllFrom site more first) (fewer : index ≤ more) :
    AllFrom site index first := by
  intro literal isLiteral
  obtain ⟨number, isNumber, isBelow⟩ := numbered literal isLiteral
  exact ⟨number, Nat.le_trans fewer isNumber, isBelow⟩

/-- What is below one child is not below another. -/
theorem eq_of_below {number other : Nat} {place : Site} (isFirst : site.child number <:+ place)
    (isSecond : site.child other <:+ place) : number = other := by
  have same := List.suffix_of_suffix_length_le isFirst isSecond (Nat.le_refl _)
  exact (List.cons.inj (same.eq_of_length rfl)).1

/-- What is below a child of a place is not at the place. -/
theorem AllFrom.ne (numbered : AllFrom site index first) {literal : Literal}
    (isLiteral : literal ∈ first) : site ≠ literal.site := by
  intro same
  obtain ⟨number, -, isBelow⟩ := numbered literal isLiteral
  rw [← same] at isBelow
  exact absurd isBelow.length_le (Nat.not_succ_le_self _)

end Literal

/-! ## Trees -/

open Literal

mutual

/-- Only a function literal itself has the place of an expression. -/
theorem Expr.literals_from (site : Site) (expr : Expr) :
    AllBelow site (expr.literals site) ∧
      ((∀ parameters body, expr ≠ .fn parameters body) → AllFrom site 0 (expr.literals site)) := by
  have ofNumbered {expr : Expr} (numbered : AllFrom site 0 (expr.literals site)) :
      AllBelow site (expr.literals site) ∧
        ((∀ parameters body, expr ≠ .fn parameters body) →
          AllFrom site 0 (expr.literals site)) := ⟨numbered.below, fun _ => numbered⟩
  match expr with
  | .ident _ => exact ofNumbered nofun
  | .int _ => exact ofNumbered nofun
  | .bool _ => exact ofNumbered nofun
  | .prefixOp _ operand => exact ofNumbered (Expr.literals_from _ operand).1.from
  | .infixOp _ left right =>
      have later := (Expr.literals_from (site.child 1) right).1.from
      exact ofNumbered
        ((Expr.literals_from _ left).1.from.append (later.mono (Nat.zero_le 1)))
  | .ifElse condition consequence none =>
      have later := (Stmt.literalsList_from (site.child 1) 0 consequence).below.from
      exact ofNumbered
        ((Expr.literals_from _ condition).1.from.append (later.mono (Nat.zero_le 1)))
  | .ifElse condition consequence (some alternative) =>
      have later := (Stmt.literalsList_from (site.child 1) 0 consequence).below.from
      have last := (Stmt.literalsList_from (site.child 2) 0 alternative).below.from
      exact ofNumbered ((Expr.literals_from _ condition).1.from.append
        ((later.mono (Nat.zero_le 1)).append (last.mono (Nat.zero_le 2))))
  | .fn parameters body =>
      refine ⟨?_, fun isNone => absurd rfl (isNone parameters body)⟩
      intro literal isLiteral
      rcases List.mem_cons.mp isLiteral with rfl | isInner
      · exact List.suffix_refl site
      · exact (Stmt.literalsList_from (site.child 0) 0 body).below.from.below literal isInner
  | .call callee arguments =>
      have later := (Expr.literalsList_from (site.child 1) 0 arguments).below.from
      exact ofNumbered
        ((Expr.literals_from _ callee).1.from.append (later.mono (Nat.zero_le 1)))

theorem Stmt.literals_below (site : Site) (stmt : Stmt) : AllBelow site (stmt.literals site) := by
  match stmt with
  | .letBind _ value => exact (Expr.literals_from site value).1
  | .ret value => exact (Expr.literals_from site value).1
  | .expr value => exact (Expr.literals_from site value).1

theorem Stmt.literalsList_from (site : Site) (index : Nat) (stmts : List Stmt) :
    AllFrom site index (Stmt.literalsList site index stmts) := by
  match stmts with
  | [] => exact nofun
  | stmt :: stmts =>
      have later := Stmt.literalsList_from site (index + 1) stmts
      exact (Stmt.literals_below (site.child index) stmt).from.append (later.mono (Nat.le_succ _))

theorem Expr.literalsList_from (site : Site) (index : Nat) (exprs : List Expr) :
    AllFrom site index (Expr.literalsList site index exprs) := by
  match exprs with
  | [] => exact nofun
  | expr :: exprs =>
      have later := Expr.literalsList_from site (index + 1) exprs
      exact (Expr.literals_from (site.child index) expr).1.from.append (later.mono (Nat.le_succ _))

end

theorem Expr.literals_below (site : Site) (expr : Expr) : AllBelow site (expr.literals site) :=
  (Expr.literals_from site expr).1

/-! ## The way to a literal -/

namespace Literal

variable (literal : Literal) {site : Site} {index : Nat} {first second : List Literal}

/-- If the literal is at the place or below it, it is one of these. -/
def Placed (site : Site) (literals : List Literal) : Prop :=
  site <:+ literal.site → literal ∈ literals

/-- If the literal is below a child of the place that is numbered from `index` on, it is one of
these. -/
def PlacedFrom (site : Site) (index : Nat) (literals : List Literal) : Prop :=
  ∀ number, index ≤ number → site.child number <:+ literal.site → literal ∈ literals

variable {literal}

theorem Placed.numbered (placed : literal.Placed site first) : literal.PlacedFrom site 0 first :=
  fun number _ isBelow => placed ((List.suffix_cons number site).trans isBelow)

theorem PlacedFrom.head (placed : literal.PlacedFrom site index (first ++ second))
    (later : AllFrom site (index + 1) second) : literal.Placed (site.child index) first := by
  intro isBelow
  refine (List.mem_append.mp (placed index (Nat.le_refl _) isBelow)).resolve_right ?_
  intro isSecond
  obtain ⟨number, isLater, isBelow'⟩ := later literal isSecond
  have isNumber := eq_of_below isBelow isBelow'
  omega

theorem PlacedFrom.tail (placed : literal.PlacedFrom site index (first ++ second))
    (below : AllBelow (site.child index) first) : literal.PlacedFrom site (index + 1) second := by
  intro number isLater isBelow
  refine (List.mem_append.mp (placed number (by omega) isBelow)).resolve_left ?_
  intro isFirst
  have isNumber := eq_of_below isBelow (below literal isFirst)
  omega

theorem PlacedFrom.alone (placed : literal.PlacedFrom site index first) :
    literal.Placed (site.child index) first :=
  placed index (Nat.le_refl _)

/-- Where all literals are below children of a place, the literal is not at that place. -/
theorem Placed.ne (placed : literal.Placed site first) (numbered : AllFrom site 0 first) :
    site ≠ literal.site := by
  intro same
  exact numbered.ne (placed (same ▸ List.suffix_refl site)) same

/-- So it is not where another expression is. -/
theorem Placed.ne_of_expr {expr : Expr} (placed : literal.Placed site (expr.literals site))
    (isNone : ∀ parameters body, expr ≠ .fn parameters body) : site ≠ literal.site :=
  placed.ne ((expr.literals_from site).2 isNone)

variable {parameters : List String} {body : Block}

/-- A literal at the place of the literal is that literal. -/
theorem Placed.eq (placed : literal.Placed site ((Expr.fn parameters body).literals site))
    (same : site = literal.site) : literal = ⟨site, parameters, body⟩ := by
  have isLiteral := placed (same ▸ List.suffix_refl site)
  rw [Expr.literals] at isLiteral
  refine (List.mem_cons.mp isLiteral).resolve_right fun isInner => ?_
  exact (Stmt.literalsList_from (site.child 0) 0 body).below.from.ne isInner same

theorem Placed.inner (placed : literal.Placed site ((Expr.fn parameters body).literals site)) :
    literal.Placed (site.child 0) (Stmt.literalsList (site.child 0) 0 body) := by
  intro isBelow
  have isLiteral := placed ((List.suffix_cons 0 site).trans isBelow)
  rw [Expr.literals] at isLiteral
  refine (List.mem_cons.mp isLiteral).resolve_left ?_
  rintro rfl
  exact absurd isBelow.length_le (Nat.not_succ_le_self _)

end Literal

end Monkey
