/-
# Reading the canonical form again

Reading takes characters while the grammar takes tokens, so the canonical form is first
read as the tokens that it was written from. What is written for an expression is cut off
by whatever follows it, since no letter and no digit ever does. With the tokens known, the
grammar decides: the program comes back exactly if all conditions are operations.
-/

import Mathlib.Data.List.Forall2
import Monkey.Proofs.Grammar.Completeness
import Monkey.Proofs.Program.Canonical
import Monkey.Proofs.Token.Spelling

namespace Monkey

open Grammar Text

/-! ## Texts and the kinds of their tokens -/

namespace Spelled

/-- White space in front of a text changes nothing about its tokens. -/
theorem ofBlank {offset : Nat} {c : Char} {text : List Char} {tokens : List Token}
    (blank : isBlank c = true) (spelled : Spelled (offset + byteLength [c]) text tokens) :
    Spelled offset (c :: text) tokens := by
  cases spelled with
  | blank areBlank => exact .blank (List.forall_mem_cons.mpr ⟨blank, areBlank⟩)
  | @token start blanks rest kind others areBlank hasShape byTable ends spelled _ isStart =>
      refine .token (List.forall_mem_cons.mpr ⟨blank, areBlank⟩) hasShape byTable ends spelled ?_
      rw [← isStart, byteLength_cons, byteLength_cons, byteLength_nil]
      omega

theorem shapes {offset : Nat} {text : List Char} {tokens : List Token}
    (spelled : Spelled offset text tokens) :
    ∀ token ∈ tokens, token.kind.HasShape ∧ token.kind.ByTable := by
  induction spelled with
  | blank _ => simp
  | token _ hasShape byTable _ _ _ ih => exact List.forall_mem_cons.mpr ⟨⟨hasShape, byTable⟩, ih⟩

end Spelled

theorem IsIdentifier.shape {name : String} (isIdentifier : IsIdentifier name) :
    (Kind.ident name).HasShape ∧ (Kind.ident name).ByTable := by
  obtain ⟨token, isWords, isKind⟩ := List.map_eq_singleton_iff.mp isIdentifier
  have shapes := (Cursor.spelled_words (Cursor.ofText name)).shapes token
  rw [isWords, isKind] at shapes
  exact shapes List.mem_cons_self

/-- The identifiers are the words that are not in the table. -/
theorem isIdentifier_iff {name : String} :
    IsIdentifier name ↔ IsWord name.toList ∧ Keyword.ofText? name = none := by
  constructor
  · intro isIdentifier
    obtain ⟨isWord, byTable⟩ := isIdentifier.shape
    have unlisted := byTable isWord
    exact ⟨isWord, by simpa [Kind.literal] using unlisted⟩
  · rintro ⟨isWord, unlisted⟩
    have byTable : (Kind.ident name).ByTable := fun _ => by simp [Kind.literal, unlisted]
    exact congrArg (List.map Token.kind) (@Cursor.words_of_literal (.ident name) isWord byTable)

theorem isWordChar_of_isDigit {c : Char} (digit : c.isDigit = true) : isWordChar c = true := by
  simp [isWordChar, Char.isAlphanum, digit]

/-- The decimal form of a number is a token. -/
theorem shape_digits (n : Nat) :
    (Kind.int (String.ofList (Nat.toDigits 10 n))).HasShape ∧
      (Kind.int (String.ofList (Nat.toDigits 10 n))).ByTable := by
  have isText := String.toList_ofList (l := Nat.toDigits 10 n)
  generalize String.ofList (Nat.toDigits 10 n) = text at isText ⊢
  have digits : ∀ c ∈ text.toList, c.isDigit = true := by
    rw [isText]
    exact fun c isMember => Nat.isDigit_of_mem_toDigits (by decide) (by decide) isMember
  have nonempty : text.toList ≠ [] := by
    rw [isText]
    exact Nat.toDigits_ne_nil
  exact ⟨⟨nonempty, digits⟩, Kind.byTable_of_not_isWord (not_isWord_of_digits digits)⟩

/-- The text is spelled by tokens of these kinds, wherever it begins. -/
def SpelledAs (text : List Char) (kinds : List Kind) : Prop :=
  ∀ offset, ∃ tokens, Spelled offset text tokens ∧ tokens.map Token.kind = kinds

/-- What follows does not carry on a word or a number. -/
def Parted (rest : List Char) : Prop := ∀ c ∈ rest.head?, isWordChar c = false

theorem Parted.cons {c : Char} (noWordChar : isWordChar c = false) (rest : List Char) :
    Parted (c :: rest) := by
  rintro _ ⟨⟩
  exact noWordChar

namespace SpelledAs

variable {rest : List Char} {kinds : List Kind}

theorem nil : SpelledAs [] [] := fun _ => ⟨[], .blank (by simp), rfl⟩

theorem blank {c : Char} (isBlank : isBlank c = true) (spelled : SpelledAs rest kinds) :
    SpelledAs (c :: rest) kinds := by
  intro offset
  obtain ⟨tokens, spelled, isKinds⟩ := spelled (offset + byteLength [c])
  exact ⟨tokens, spelled.ofBlank isBlank, isKinds⟩

theorem token {kind : Kind} (shape : kind.HasShape ∧ kind.ByTable) (ends : kind.EndsBefore rest)
    (spelled : SpelledAs rest kinds) :
    SpelledAs (kind.literal.toList ++ rest) (kind :: kinds) := by
  intro offset
  obtain ⟨tokens, spelled, isKinds⟩ := spelled (offset + byteLength kind.literal.toList)
  have begins : ∀ c ∈ ([] : List Char), Text.isBlank c = true := by simp
  exact ⟨_, .token begins shape.1 shape.2 ends spelled rfl, congrArg (kind :: ·) isKinds⟩

theorem symbol (written : Symbol) (ends : (Kind.symbol written).EndsBefore rest)
    (spelled : SpelledAs rest kinds) :
    SpelledAs (written.text.toList ++ rest) (.symbol written :: kinds) :=
  @token _ _ (.symbol written)
    ⟨trivial, Kind.byTable_of_not_isWord written.not_isWord_text⟩ ends spelled

theorem keyword (word : Keyword) (parted : Parted rest) (spelled : SpelledAs rest kinds) :
    SpelledAs (word.text.toList ++ rest) (.keyword word :: kinds) := by
  have listed : (Keyword.ofText? word.text).isSome = true := by
    rw [Keyword.ofText?_text, Option.isSome_some]
  exact @token _ _ (.keyword word) ⟨trivial, fun _ => iff_of_true ⟨word, rfl⟩ listed⟩ parted spelled

end SpelledAs

/-- The text is read as these kinds in front of anything that does not carry on a word. -/
def Writes (text : List Char) (kinds : List Kind) : Prop :=
  ∀ rest more, Parted rest → SpelledAs rest more → SpelledAs (text ++ rest) (kinds ++ more)

namespace Writes

theorem nil : Writes [] [] := fun _ _ _ spelled => spelled

theorem identifier {name : String} (isIdentifier : IsIdentifier name) :
    Writes name.toList [.ident name] :=
  fun _ _ parted spelled => .token isIdentifier.shape parted spelled

theorem digits (n : Nat) :
    Writes (Nat.toDigits 10 n) [.int (String.ofList (Nat.toDigits 10 n))] := by
  intro rest more parted spelled
  have ends : ∀ c ∈ rest.head?, c.isDigit = false := by
    intro c isHead
    rw [Bool.eq_false_iff]
    intro digit
    exact Bool.false_ne_true ((parted c isHead).symm.trans (isWordChar_of_isDigit digit))
  have whole : SpelledAs _ (.int (String.ofList (Nat.toDigits 10 n)) :: more) :=
    .token (shape_digits n) ends spelled
  rwa [Kind.literal, String.toList_ofList] at whole

theorem integer {value : Int64} (nonneg : 0 ≤ value.toInt) :
    Writes (intText value).toList [.int (intText value)] := by
  rw [intText_of_nonneg nonneg, String.toList_ofList]
  exact digits _

theorem keyword (word : Keyword) : Writes word.text.toList [.keyword word] :=
  fun _ _ parted spelled => .keyword word parted spelled

/-- A text that comes before another if that one is parted from it. -/
theorem append {first second : List Char} {kinds more : List Kind} (writes : Writes first kinds)
    (writesMore : Writes second more) (parted : ∀ rest, Parted rest → Parted (second ++ rest)) :
    Writes (first ++ second) (kinds ++ more) := by
  intro rest others restParted spelled
  rw [List.append_assoc, List.append_assoc]
  exact writes _ _ (parted rest restParted) (writesMore rest others restParted spelled)

end Writes

/-- What stands between two texts. It parts them, and whatever follows. -/
structure Separates (between : List Char) (kinds : List Kind) : Prop where
  parts : ∀ rest, Parted (between ++ rest)
  writes : ∀ rest more, SpelledAs rest more → SpelledAs (between ++ rest) (kinds ++ more)

theorem separates_comma : Separates [',', ' '] [.symbol .comma] where
  parts _ := .cons rfl _
  writes _ _ spelled := .symbol .comma trivial (spelled.blank rfl)

theorem separates_blank : Separates [' '] [] where
  parts _ := .cons rfl _
  writes _ _ spelled := spelled.blank rfl

/-- Texts one after the other, with the same between each two of them. -/
theorem Separates.intercalate {between : List Char} {kinds : List Kind}
    (separates : Separates between kinds) {texts : List (List Char)}
    {kindsList : List (List Kind)} (writes : List.Forall₂ Writes texts kindsList) :
    Writes (List.intercalate between texts) (List.intercalate kinds kindsList) := by
  have behind {texts : List (List Char)} {kindsList : List (List Kind)}
      (writes : List.Forall₂ Writes texts kindsList) :
      Writes (texts.flatMap (between ++ ·)) (kindsList.flatMap (kinds ++ ·)) ∧
        ∀ rest, Parted rest → Parted (texts.flatMap (between ++ ·) ++ rest) := by
    induction writes with
    | nil => exact ⟨.nil, fun _ => id⟩
    | cons first others ih =>
        constructor
        · intro rest more parted spelled
          simp only [List.flatMap_cons, List.append_assoc]
          apply separates.writes
          exact first _ _ (ih.2 rest parted) (ih.1 rest more parted spelled)
        · intro rest _
          simp only [List.flatMap_cons, List.append_assoc]
          exact separates.parts _
  cases writes with
  | nil => exact .nil
  | cons first others =>
      rw [intercalate_cons, intercalate_cons]
      exact first.append (behind others).1 (behind others).2

theorem intercalate_nil_eq_flatten {α : Type} (lists : List (List α)) :
    List.intercalate [] lists = lists.flatten := by
  cases lists with
  | nil => rfl
  | cons first others => rw [intercalate_cons]; simp [List.flatMap_def]

theorem flatMap_flatten {α β : Type} (f : α → List β) (lists : List (List α)) :
    lists.flatten.flatMap f = (lists.map (List.flatMap f)).flatten := by
  rw [List.flatMap_def, List.map_flatten, List.flatten_flatten, List.map_map]
  rfl

theorem names_eq_intercalate (bound : List String) :
    names bound = List.intercalate [.symbol .comma] (bound.map fun name => [.ident name]) := by
  have more (bound : List String) :
      moreNames bound = bound.flatMap fun name => [.symbol .comma, .ident name] := by
    induction bound with
    | nil => rfl
    | cons name bound ih => rw [moreNames, ih]; rfl
  cases bound with
  | nil => rfl
  | cons name bound => simp [names, more, intercalate_cons, List.flatMap_map]

namespace Writes

theorem names {bound : List String} (areIdentifiers : ∀ name ∈ bound, IsIdentifier name) :
    Writes (nameList bound) (names bound) := by
  rw [names_eq_intercalate]
  apply separates_comma.intercalate
  induction bound with
  | nil => exact .nil
  | cons name bound ih =>
      obtain ⟨isFirst, areOthers⟩ := List.forall_mem_cons.mp areIdentifiers
      exact .cons (.identifier isFirst) (ih areOthers)

/-- A text between parentheses. -/
theorem group {text : List Char} {kinds : List Kind} (writes : Writes text kinds) :
    Writes ('(' :: (text ++ [')'])) (groupKinds kinds) := by
  intro rest more _ spelled
  have closed : SpelledAs (')' :: rest) (.symbol .rightParen :: more) :=
    .symbol .rightParen trivial spelled
  have inside := writes _ _ (.cons rfl _) closed
  have opened : SpelledAs ('(' :: (text ++ ')' :: rest)) _ := .symbol .leftParen trivial inside
  simpa [groupKinds] using opened

/-- Statements between braces. -/
theorem braced {texts : List (List Char)} {statements : List (List Kind)}
    (writes : List.Forall₂ Writes texts statements) :
    Writes (braced texts) (blockKinds statements) := by
  intro rest more _ spelled
  have closed : SpelledAs ('}' :: rest) (.symbol .rightBrace :: more) :=
    .symbol .rightBrace trivial spelled
  have inside := separates_blank.intercalate writes _ _ (.cons rfl _) closed
  rw [intercalate_nil_eq_flatten] at inside
  have opened : SpelledAs ('{' :: (List.intercalate [' '] texts ++ '}' :: rest)) _ :=
    .symbol .leftBrace trivial inside
  simpa [Monkey.braced, blockKinds] using opened

/-- A text with a semicolon behind it. -/
theorem ended {text : List Char} {kinds : List Kind} (writes : Writes text kinds) :
    Writes (text ++ [';']) (kinds ++ [.symbol .semicolon]) :=
  writes.append (fun _ _ _ spelled => .symbol .semicolon trivial spelled)
    fun _ _ => .cons rfl _

/-- A text with a keyword and a blank before it. -/
theorem afterKeyword (word : Keyword) {text : List Char} {kinds : List Kind}
    (writes : Writes text kinds) :
    Writes (word.text.toList ++ ' ' :: text) (.keyword word :: kinds) :=
  (keyword word).append (fun rest more parted spelled => (writes rest more parted spelled).blank rfl)
    fun _ _ => .cons rfl _

/-- A text with an equals sign and a blank before it. -/
theorem afterAssign {text : List Char} {kinds : List Kind} (writes : Writes text kinds) :
    Writes ('=' :: ' ' :: text) (.symbol .assign :: kinds) := by
  intro rest more parted spelled
  have ends : (Kind.symbol .assign).EndsBefore (' ' :: (text ++ rest)) := by
    rintro _ ⟨⟩
    decide
  exact .symbol .assign ends ((writes rest more parted spelled).blank rfl)

/-- A text behind another one, with a blank between them. -/
theorem appendBlank {first second : List Char} {kinds more : List Kind}
    (writes : Writes first kinds) (writesMore : Writes second more) :
    Writes (first ++ ' ' :: second) (kinds ++ more) :=
  writes.append (fun rest others parted spelled => (writesMore rest others parted spelled).blank rfl)
    fun _ _ => .cons rfl _

/-- An operator between two texts, with blanks around it. -/
theorem infixOp (op : InfixOp) {left right : List Char} {leftKinds rightKinds : List Kind}
    (writesLeft : Writes left leftKinds) (writesRight : Writes right rightKinds) :
    Writes (left ++ ' ' :: (op.text.toList ++ ' ' :: right))
      (leftKinds ++ .symbol op.symbol :: rightKinds) := by
  apply writesLeft.appendBlank
  intro rest more parted spelled
  have behind := (writesRight rest more parted spelled).blank (c := ' ') rfl
  have isText : op.text = op.symbol.text := by cases op <;> rfl
  have ends : (Kind.symbol op.symbol).EndsBefore (' ' :: (right ++ rest)) := by
    cases op <;> trivial
  rw [isText, List.append_assoc]
  exact .symbol op.symbol ends behind

/-- An operator before a text. An equals sign there would make it another one. -/
theorem prefixOp (op : PrefixOp) {operand : List Char} {kinds : List Kind}
    (writes : Writes operand kinds) (noEquals : ∃ c others, operand = c :: others ∧ c ≠ '=') :
    Writes (op.text.toList ++ operand) (.symbol op.symbol :: kinds) := by
  intro rest more parted spelled
  obtain ⟨first, others, rfl, noEquals⟩ := noEquals
  have isText : op.text = op.symbol.text := by cases op <;> rfl
  have ends : (Kind.symbol op.symbol).EndsBefore (first :: others ++ rest) := by
    cases op with
    | minus => trivial
    | bang =>
        rintro _ ⟨⟩
        exact noEquals
  rw [isText, List.append_assoc]
  exact .symbol op.symbol ends (writes rest more parted spelled)

end Writes

/-- What is written for an integer does not begin with an equals sign. -/
theorem intText_head (value : Int64) :
    ∃ c others, (intText value).toList = c :: others ∧ c ≠ '=' := by
  by_cases nonneg : 0 ≤ value.toInt
  · obtain ⟨nonempty, digits⟩ := (shape_digits value.toInt.toNat).1
    rw [← intText_of_nonneg nonneg] at nonempty digits
    obtain ⟨first, others, isText⟩ := List.exists_cons_of_ne_nil nonempty
    refine ⟨first, others, isText, ?_⟩
    rintro rfl
    exact Bool.false_ne_true (digits '=' (isText ▸ List.mem_cons_self))
  · exact ⟨'-', _, toList_intText_of_neg (Int.not_le.mp nonneg), by decide⟩

/-- What is written for an expression does not begin with an equals sign. -/
theorem Expr.chars_head {onExpr : Expr → Prop} (expr : Expr)
    (named : expr.Every onExpr IsIdentifier) :
    ∃ c others, expr.chars = c :: others ∧ c ≠ '=' := by
  match expr with
  | .ident name =>
      obtain ⟨first, others, isText, letter, -⟩ := named.2.shape.1
      refine ⟨first, others, isText, ?_⟩
      rintro rfl
      cases letter
  | .int value => exact intText_head value
  | .bool true => exact ⟨'t', _, rfl, by decide⟩
  | .bool false => exact ⟨'f', _, rfl, by decide⟩
  | .prefixOp _ _ => exact ⟨'(', _, rfl, by decide⟩
  | .infixOp _ _ _ => exact ⟨'(', _, rfl, by decide⟩
  | .ifElse _ _ none => exact ⟨'i', _, rfl, by decide⟩
  | .ifElse _ _ (some _) => exact ⟨'i', _, rfl, by decide⟩
  | .fn _ _ => exact ⟨'f', _, rfl, by decide⟩
  | .call callee arguments =>
      obtain ⟨first, others, isText, noEquals⟩ := callee.chars_head named.2.1
      rw [Expr.chars, isText]
      exact ⟨first, _, rfl, noEquals⟩

/-! ## Tokens that integers are split into -/

/-- Each integer of this sort is written by the tokens that it is split into, and nothing else is
split. -/
structure Splits (split : Kind → List Kind) (onExpr : Expr → Prop) : Prop where
  whole : ∀ kind, (∀ digits, kind ≠ .int digits) → split kind = [kind]
  integer : ∀ value, onExpr (.int value) →
    Writes (intText value).toList (split (.int (intText value)))

/-- Integers that are not negative need not be split. -/
theorem splits_spellable : Splits (fun kind => [kind]) Expr.IsSpellable where
  whole _ _ := rfl
  integer _ nonneg := .integer nonneg

namespace Splits

variable {split : Kind → List Kind} {onExpr : Expr → Prop} (splits : Splits split onExpr)

include splits

theorem symbol (spelled : Symbol) (kinds : List Kind) :
    (.symbol spelled :: kinds).flatMap split = .symbol spelled :: kinds.flatMap split := by
  rw [List.flatMap_cons, splits.whole _ (by simp), List.singleton_append]

theorem keyword (word : Keyword) (kinds : List Kind) :
    (.keyword word :: kinds).flatMap split = .keyword word :: kinds.flatMap split := by
  rw [List.flatMap_cons, splits.whole _ (by simp), List.singleton_append]

theorem ident (name : String) (kinds : List Kind) :
    (.ident name :: kinds).flatMap split = .ident name :: kinds.flatMap split := by
  rw [List.flatMap_cons, splits.whole _ (by simp), List.singleton_append]

theorem group (kinds : List Kind) :
    (groupKinds kinds).flatMap split = groupKinds (kinds.flatMap split) := by
  rw [groupKinds, splits.symbol, List.flatMap_append, splits.symbol, List.flatMap_nil, groupKinds]

theorem block (statements : List (List Kind)) :
    (blockKinds statements).flatMap split = blockKinds (statements.map (List.flatMap split)) := by
  rw [blockKinds, splits.symbol, List.flatMap_append, splits.symbol, List.flatMap_nil, blockKinds,
    flatMap_flatten]

theorem separated (kindsList : List (List Kind)) :
    (List.intercalate [.symbol .comma] kindsList).flatMap split =
      List.intercalate [.symbol .comma] (kindsList.map (List.flatMap split)) := by
  cases kindsList with
  | nil => rfl
  | cons kinds kindsList =>
      simp only [intercalate_cons, List.map_cons, List.flatMap_append, List.flatMap_assoc,
        List.flatMap_map, List.singleton_append, splits.symbol]

theorem names (bound : List String) : (names bound).flatMap split = names bound := by
  rw [names_eq_intercalate, splits.separated, List.map_map]
  congr 1
  refine List.map_congr_left fun name _ => ?_
  exact splits.ident name []

end Splits

section

variable {split : Kind → List Kind} {onExpr : Expr → Prop}

mutual

theorem Expr.writes (splits : Splits split onExpr) (expr : Expr)
    (wellFormed : expr.Every onExpr IsIdentifier) :
    Writes expr.chars (expr.kinds.flatMap split) := by
  match expr with
  | .ident name =>
      rw [Expr.kinds, splits.ident]
      exact .identifier wellFormed.2
  | .int value =>
      rw [Expr.kinds, List.flatMap_singleton]
      exact splits.integer value wellFormed
  | .bool true =>
      rw [Expr.kinds, splits.keyword]
      exact .keyword .trueWord
  | .bool false =>
      rw [Expr.kinds, splits.keyword]
      exact .keyword .falseWord
  | .prefixOp op operand =>
      have inner := Writes.prefixOp op (operand.writes splits wellFormed.2)
        (operand.chars_head wellFormed.2)
      rw [Expr.kinds, splits.group, splits.symbol]
      simpa [Expr.chars] using inner.group
  | .infixOp op left right =>
      have inner := Writes.infixOp op (left.writes splits wellFormed.2.1)
        (right.writes splits wellFormed.2.2)
      rw [Expr.kinds, splits.group, List.flatMap_append, splits.symbol]
      simpa [Expr.chars] using inner.group
  | .ifElse condition consequence none =>
      have first := condition.writes splits wellFormed.2.1
      have block := Writes.braced (Stmt.writes splits consequence wellFormed.2.2)
      rw [Expr.kinds, splits.keyword, List.flatMap_append, splits.block]
      exact (first.appendBlank block).afterKeyword .ifWord
  | .ifElse condition consequence (some alternative) =>
      have first := condition.writes splits wellFormed.2.1
      have block := Writes.braced (Stmt.writes splits consequence wellFormed.2.2.1)
      have other := (Writes.braced
        (Stmt.writes splits alternative wellFormed.2.2.2)).afterKeyword .elseWord
      have whole := (first.appendBlank (block.appendBlank other)).afterKeyword .ifWord
      rw [Expr.kinds, splits.keyword, List.flatMap_append, List.flatMap_append, splits.keyword,
        splits.block, splits.block]
      simpa [Expr.chars, Keyword.text] using whole
  | .fn parameters body =>
      have block := Writes.braced (Stmt.writes splits body wellFormed.2.2)
      have bound := (Writes.names wellFormed.2.1).group.appendBlank block
      have whole := (Writes.keyword .function).append bound fun _ _ => .cons rfl _
      rw [Expr.kinds, splits.keyword, List.flatMap_append, splits.group, splits.names, splits.block]
      simpa [Expr.chars, Keyword.text] using whole
  | .call callee arguments =>
      have first := callee.writes splits wellFormed.2.1
      have given := separates_comma.intercalate (Expr.writes_list splits arguments wellFormed.2.2)
      have whole := first.append given.group fun _ _ => .cons rfl _
      rw [Expr.kinds, List.flatMap_append, splits.group, splits.separated]
      simpa [Expr.chars] using whole

theorem Stmt.writes (splits : Splits split onExpr) (stmts : List Stmt)
    (wellFormed : Stmt.EveryOf onExpr IsIdentifier stmts) :
    List.Forall₂ Writes (Stmt.charsList stmts)
      ((Stmt.kindsList stmts).map (List.flatMap split)) := by
  match stmts with
  | [] => exact .nil
  | .letBind name value :: stmts =>
      refine .cons ?_ (Stmt.writes splits stmts wellFormed.2)
      have inner := (value.writes splits wellFormed.1.2).ended.afterAssign
      have whole := ((Writes.identifier wellFormed.1.1).appendBlank inner).afterKeyword .letWord
      rw [Stmt.kinds, splits.keyword, splits.ident, splits.symbol, List.flatMap_append,
        splits.symbol, List.flatMap_nil]
      simpa [Stmt.chars, Keyword.text] using whole
  | .ret value :: stmts =>
      refine .cons ?_ (Stmt.writes splits stmts wellFormed.2)
      rw [Stmt.kinds, splits.keyword, List.flatMap_append, splits.symbol, List.flatMap_nil]
      exact ((value.writes splits wellFormed.1).ended).afterKeyword .returnWord
  | .expr value :: stmts =>
      refine .cons ?_ (Stmt.writes splits stmts wellFormed.2)
      rw [Stmt.kinds, List.flatMap_append, splits.symbol, List.flatMap_nil]
      exact (value.writes splits wellFormed.1).ended

theorem Expr.writes_list (splits : Splits split onExpr) (exprs : List Expr)
    (wellFormed : Expr.EveryOf onExpr IsIdentifier exprs) :
    List.Forall₂ Writes (Expr.charsList exprs)
      ((Expr.kindsList exprs).map (List.flatMap split)) := by
  match exprs with
  | [] => exact .nil
  | expr :: exprs =>
      exact .cons (expr.writes splits wellFormed.1) (Expr.writes_list splits exprs wellFormed.2)

end

theorem Program.spelledAs_chars (splits : Splits split onExpr) {program : Program}
    (wellFormed : Stmt.EveryOf onExpr IsIdentifier program) :
    SpelledAs program.chars (program.kinds.flatMap split) := by
  have writes := Stmt.writes splits program wellFormed
  clear wellFormed
  induction program with
  | nil => exact .nil
  | cons stmt program ih =>
      obtain ⟨first, others⟩ := List.forall₂_cons.mp writes
      have whole := first _ _ (.cons rfl _) ((ih others).blank (c := '\n') rfl)
      simpa [chars, kinds, Stmt.kindsList] using whole

end

/-- A text is read as the tokens that it is spelled by, so these are always the same. -/
theorem SpelledAs.words_eq {text : List Char} {kinds : List Kind} (spelled : SpelledAs text kinds) :
    (Cursor.ofText (String.ofList text)).words.map Token.kind = kinds := by
  obtain ⟨tokens, spelled, isKinds⟩ := spelled 0
  rw [Cursor.ofText, String.toList_ofList, spelled.words_eq, isKinds]

/-- A text that is read so in front of anything is read so by itself. -/
theorem Writes.words_eq {text : String} {kinds : List Kind} (writes : Writes text.toList kinds) :
    (Cursor.ofText text).words.map Token.kind = kinds := by
  have spelled := writes [] [] (by simp [Parted]) .nil
  rw [List.append_nil, List.append_nil] at spelled
  have isKinds := spelled.words_eq
  rwa [String.ofList_toList] at isKinds

namespace Program

/-- The canonical form is read as the tokens that were written. -/
theorem words_render {program : Program} (wellFormed : program.WellFormed) :
    (Cursor.ofText program.render).words.map Token.kind = program.kinds := by
  have isWords := (spelledAs_chars splits_spellable wellFormed).words_eq
  rwa [List.flatMap_singleton'] at isWords

end Program

theorem Parsed.toExcept_eq_ok_iff {parsed : Parsed} {program : Program} :
    parsed.toExcept = .ok program ↔ parsed = ⟨program, []⟩ := by
  obtain ⟨statements, diagnostics⟩ := parsed
  by_cases noErrors : diagnostics = []
  · simp [toExcept, noErrors]
  · simp [toExcept, noErrors]

namespace Program

/-- The canonical form of a program is read as this program exactly if the condition of every
conditional is an operation. Otherwise it is rejected, and so never read as another. -/
theorem parse_render {program : Program} (wellFormed : program.WellFormed) :
    ((parse program.render).toExcept = .ok program ↔ program.ConditionsAreOperations) ∧
    (¬ program.ConditionsAreOperations →
      ∃ errors, errors ≠ [] ∧ (parse program.render).toExcept = .error errors) := by
  obtain ⟨derived, underivable⟩ := isProgram_kinds_iff wellFormed
  rw [← words_render wellFormed] at derived underivable
  have rejected (noOperation : ¬ program.ConditionsAreOperations) :
      (parse program.render).diagnostics ≠ [] :=
    fun noErrors => noOperation (underivable _ (Tape.isProgram_of_parse noErrors))
  refine ⟨⟨fun isOk => ?_, fun operations => ?_⟩, fun noOperation => ?_⟩
  · by_contra noOperation
    rw [Parsed.toExcept_eq_ok_iff] at isOk
    exact rejected noOperation (by rw [isOk])
  · rw [Parsed.toExcept_eq_ok_iff]
    exact Tape.parse_of_isProgram (derived operations)
  · exact ⟨_, rejected noOperation, if_neg (rejected noOperation)⟩

/-- The condition `(!x)` has the parentheses that a conditional needs, and `f(x)` has not. -/
theorem parse_render_conditionals :
    (parse (render [.expr (.ifElse (.prefixOp .bang (.ident "x")) [] none)])).toExcept =
      .ok [.expr (.ifElse (.prefixOp .bang (.ident "x")) [] none)] ∧
    ∃ errors, errors ≠ [] ∧
      (parse (render [.expr (.ifElse (.call (.ident "f") [.ident "x"]) [] none)])).toExcept =
        .error errors := by
  have isName (c : Char) (letter : isLetter c = true)
      (unlisted : Keyword.ofText? (String.ofList [c]) = none) :
      IsIdentifier (String.ofList [c]) :=
    isIdentifier_iff.mpr ⟨⟨c, [], String.toList_ofList, letter, by simp⟩, unlisted⟩
  have isX : IsIdentifier "x" := isName 'x' rfl (by decide)
  have isF : IsIdentifier "f" := isName 'f' rfl (by decide)
  constructor
  · refine (parse_render ?_).1.mpr ?_
    · exact ⟨⟨trivial, ⟨trivial, trivial, isX⟩, trivial⟩, trivial⟩
    · exact ⟨⟨trivial, ⟨trivial, trivial, trivial⟩, trivial⟩, trivial⟩
  · refine (parse_render ?_).2 ?_
    · exact ⟨⟨trivial, ⟨trivial, ⟨trivial, isF⟩, ⟨trivial, isX⟩, trivial⟩, trivial⟩, trivial⟩
    · exact fun operations => operations.1.1

end Program

end Monkey
