/-
# Program trees

Expressions and statements are mutually nested: a block is a list of statements,
and conditionals and function literals contain blocks. A program is a block as
well. Trees carry no positions, so two sources that differ in layout alone have
equal trees, and structural equality is decided here once for all users.
-/

namespace Monkey

/-- Operators before an operand. -/
inductive PrefixOp
  | minus
  | bang
  deriving DecidableEq, Repr

/-- Operators between two operands. -/
inductive InfixOp
  | plus
  | minus
  | multiply
  | divide
  | lessThan
  | greaterThan
  | equal
  | notEqual
  deriving DecidableEq, Repr

/-- The spelling of an operator before its operand. -/
def PrefixOp.text : PrefixOp → String
  | minus => "-"
  | bang => "!"

/-- The spelling of an operator between its operands. -/
def InfixOp.text : InfixOp → String
  | plus => "+"
  | minus => "-"
  | multiply => "*"
  | divide => "/"
  | lessThan => "<"
  | greaterThan => ">"
  | equal => "=="
  | notEqual => "!="

mutual

/-- Expressions. A literal holds its value, so a tree may contain negative integers that
no source text spells as one token. -/
inductive Expr where
  | ident (name : String)
  | int (value : Int64)
  | bool (value : Bool)
  | prefixOp (op : PrefixOp) (operand : Expr)
  | infixOp (op : InfixOp) (left right : Expr)
  | ifElse (condition : Expr) (consequence : List Stmt) (alternative : Option (List Stmt))
  | fn (parameters : List String) (body : List Stmt)
  | call (callee : Expr) (arguments : List Expr)

/-- Statements: bindings, returns, and expressions evaluated for their value. -/
inductive Stmt where
  | letBind (name : String) (value : Expr)
  | ret (value : Expr)
  | expr (value : Expr)

end

/-- The statements between two braces. -/
abbrev Block := List Stmt

/-- The statements of a whole source, in order. -/
abbrev Program := List Stmt

mutual

/-- Whether two expressions are the same tree. -/
def Expr.same : Expr → Expr → Bool
  | .ident first, .ident second => first == second
  | .int first, .int second => first == second
  | .bool first, .bool second => first == second
  | .prefixOp op operand, .prefixOp op' operand' => op == op' && operand.same operand'
  | .infixOp op left right, .infixOp op' left' right' =>
    op == op' && left.same left' && right.same right'
  | .ifElse condition consequence none, .ifElse condition' consequence' none =>
    condition.same condition' && Stmt.sameList consequence consequence'
  | .ifElse condition consequence (some alternative),
      .ifElse condition' consequence' (some alternative') =>
    condition.same condition' && Stmt.sameList consequence consequence' &&
      Stmt.sameList alternative alternative'
  | .fn parameters body, .fn parameters' body' =>
    parameters == parameters' && Stmt.sameList body body'
  | .call callee arguments, .call callee' arguments' =>
    callee.same callee' && Expr.sameList arguments arguments'
  | _, _ => false
  termination_by structural first => first

/-- Whether two statements are the same tree. -/
def Stmt.same : Stmt → Stmt → Bool
  | .letBind name value, .letBind name' value' => name == name' && value.same value'
  | .ret value, .ret value' => value.same value'
  | .expr value, .expr value' => value.same value'
  | _, _ => false
  termination_by structural first => first

/-- Whether two lists of statements are the same, element by element. -/
def Stmt.sameList : List Stmt → List Stmt → Bool
  | [], [] => true
  | first :: others, second :: others' => first.same second && Stmt.sameList others others'
  | _, _ => false
  termination_by structural first => first

/-- Whether two lists of expressions are the same, element by element. -/
def Expr.sameList : List Expr → List Expr → Bool
  | [], [] => true
  | first :: others, second :: others' => first.same second && Expr.sameList others others'
  | _, _ => false
  termination_by structural first => first

end

mutual

theorem Expr.same_iff (first second : Expr) : first.same second = true ↔ first = second := by
  match first, second with
  | .ident _, second => cases second <;> simp [Expr.same]
  | .int _, second => cases second <;> simp [Expr.same]
  | .bool _, second => cases second <;> simp [Expr.same]
  | .prefixOp _ operand, second =>
    cases second <;> simp [Expr.same, Expr.same_iff operand]
  | .infixOp _ left right, second =>
    cases second <;> simp [Expr.same, Expr.same_iff left, Expr.same_iff right, and_assoc]
  | .ifElse condition consequence none, second =>
    cases second with
    | ifElse _ _ alternative =>
      cases alternative <;>
        simp [Expr.same, Expr.same_iff condition, Stmt.sameList_iff consequence]
    | _ => simp [Expr.same]
  | .ifElse condition consequence (some alternative), second =>
    cases second with
    | ifElse _ _ alternative' =>
      cases alternative' <;>
        simp [Expr.same, Expr.same_iff condition, Stmt.sameList_iff consequence,
          Stmt.sameList_iff alternative, and_assoc]
    | _ => simp [Expr.same]
  | .fn _ body, second => cases second <;> simp [Expr.same, Stmt.sameList_iff body]
  | .call callee arguments, second =>
    cases second <;> simp [Expr.same, Expr.same_iff callee, Expr.sameList_iff arguments]

theorem Stmt.same_iff (first second : Stmt) : first.same second = true ↔ first = second := by
  match first, second with
  | .letBind name value, second => cases second <;> simp [Stmt.same, Expr.same_iff value]
  | .ret value, second => cases second <;> simp [Stmt.same, Expr.same_iff value]
  | .expr value, second => cases second <;> simp [Stmt.same, Expr.same_iff value]

theorem Stmt.sameList_iff (first second : List Stmt) :
    Stmt.sameList first second = true ↔ first = second := by
  match first, second with
  | [], [] => simp [Stmt.sameList]
  | [], _ :: _ => simp [Stmt.sameList]
  | _ :: _, [] => simp [Stmt.sameList]
  | head :: others, head' :: others' =>
    simp [Stmt.sameList, Stmt.same_iff head, Stmt.sameList_iff others]

theorem Expr.sameList_iff (first second : List Expr) :
    Expr.sameList first second = true ↔ first = second := by
  match first, second with
  | [], [] => simp [Expr.sameList]
  | [], _ :: _ => simp [Expr.sameList]
  | _ :: _, [] => simp [Expr.sameList]
  | head :: others, head' :: others' =>
    simp [Expr.sameList, Expr.same_iff head, Expr.sameList_iff others]

end

instance : DecidableEq Expr := fun first second =>
  decidable_of_iff _ (Expr.same_iff first second)

instance : DecidableEq Stmt := fun first second =>
  decidable_of_iff _ (Stmt.same_iff first second)

end Monkey
