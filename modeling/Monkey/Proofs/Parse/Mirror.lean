/-
# Reading sees kinds, and its budget does not show

Two things make no difference to reading. One is everything about tokens except their
kinds: if each token is exchanged for another of its kind, the same tree is built, or
the same diagnostic is given at the token that has taken its place. The other is the
budget, as long as it lasts: more of it changes nothing. Both say that two runs go side
by side, and they are one judgement.
-/

import Monkey.Proofs.Parse.Discipline

namespace Monkey

theorem Diagnostic.map_id (diagnostic : Diagnostic) : diagnostic.map id = diagnostic := by
  cases diagnostic <;> rfl

/-- The second tape has, in place of each token of the first, its image. -/
structure Tape.Image (f : Token → Token) (tape image : Tape) : Prop where
  last : image.last = tape.last.map f
  ahead : image.ahead = tape.ahead.map f
  finish : f ⟨.eof, tape.finish, tape.finish⟩ = ⟨.eof, image.finish, image.finish⟩
  depth : image.depth = tape.depth

namespace Tape.Image

variable {f : Token → Token} {tape image : Tape}

theorem peek (related : Image f tape image) : image.peek = f tape.peek := by
  rw [Tape.peek, Tape.peek, related.ahead]
  cases tape.ahead with
  | nil => exact related.finish.symm
  | cons token tokens => rfl

theorem take (kinds : ∀ token, (f token).kind = token.kind) (related : Image f tape image) :
    Image f tape.take image.take where
  last := congrArg some related.peek
  ahead := by rw [Tape.take, Tape.take, related.ahead, List.map_tail]
  finish := related.finish
  depth := by rw [Tape.take, Tape.take, related.peek, related.depth, kinds]

theorem skipSemicolon (kinds : ∀ token, (f token).kind = token.kind)
    (related : Image f tape image) : Image f tape.skipSemicolon image.skipSemicolon := by
  rw [Tape.skipSemicolon, Tape.skipSemicolon, related.peek, kinds]
  split
  · exact related.take kinds
  · exact related

theorem refl (tape : Tape) : Image id tape tape where
  last := (congrFun Option.map_id tape.last).symm
  ahead := (List.map_id _).symm
  finish := rfl
  depth := rfl

/-- Tokens that are exchanged for themselves leave the tape as it was. -/
theorem eq (related : Image id tape image) : image = tape := by
  obtain ⟨last, ahead, finish, depth⟩ := related
  cases tape
  cases image
  simp only [Option.map_id, List.map_id, id, Token.mk.injEq] at last ahead finish depth
  simp [last, ahead, finish, depth]

end Tape.Image

namespace Parser

/-- Two results agree, up to the exchange of tokens, unless the first budget was spent. -/
inductive Alike {α : Type} (f : Token → Token) :
    EStateM.Result Stop Tape α → EStateM.Result Stop Tape α → Prop
  | exhausted (tape : Tape) (ended : EStateM.Result Stop Tape α) :
    Alike f (.error .exhausted tape) ended
  | value (result : α) {tape image : Tape} (related : Tape.Image f tape image) :
    Alike f (.ok result tape) (.ok result image)
  | rejected (diagnostic : Diagnostic) {tape image : Tape} (related : Tape.Image f tape image) :
    Alike f (.error (.rejected diagnostic) tape) (.error (.rejected (diagnostic.map f)) image)

/-- Two rules go side by side on tapes whose tokens have been exchanged. -/
def Mirrors (f : Token → Token) : Judgement := fun _ first second tape =>
  ∀ image, Tape.Image f tape image → Alike f (first tape) (second image)

namespace Mirrors

variable {α β : Type} {f : Token → Token} {tape : Tape}

theorem bind {first first' : Parser α} {second second' : α → Parser β}
    (isFirst : Mirrors f first first' tape)
    (isSecond : ∀ result middle, first tape = .ok result middle →
      Mirrors f (second result) (second' result) middle) :
    Mirrors f (first >>= second) (first' >>= second') tape := by
  intro image related
  have alike := isFirst image related
  show Alike f (EStateM.bind first second tape) (EStateM.bind first' second' image)
  rw [EStateM.bind, EStateM.bind]
  cases reached : first tape with
  | ok result middle =>
      rw [reached] at alike
      generalize first' image = reached' at alike ⊢
      cases alike with
      | value _ relatedThen => exact isSecond result middle reached _ relatedThen
  | error stop stopped =>
      rw [reached] at alike
      generalize first' image = reached' at alike ⊢
      cases alike with
      | exhausted _ _ => exact .exhausted stopped _
      | rejected diagnostic relatedThen => exact .rejected diagnostic relatedThen

theorem take (kinds : ∀ token, (f token).kind = token.kind) {second second' : Token → Parser α}
    (isSecond : Mirrors f (second tape.peek) (second' (f tape.peek)) tape.take) :
    Mirrors f (Parser.take >>= second) (Parser.take >>= second') tape := by
  intro image related
  rw [take_bind, take_bind, related.peek]
  exact isSecond image.take (related.take kinds)

theorem exhausted (other : Parser α) : Mirrors f Parser.exhausted other tape :=
  fun _ _ => .exhausted tape _

theorem reject (diagnostic : Diagnostic) :
    Mirrors f (Parser.reject diagnostic : Parser α) (Parser.reject (diagnostic.map f)) tape :=
  fun _ related => .rejected diagnostic related

/-- A token that has just been taken may as well be rejected. -/
theorem of_begins {token : Token} {first second : Parser α} {goal : Tape → Prop}
    (begins : BeginsWith f (Mirrors f) token first second tape goal) :
    Mirrors f first second tape := by
  apply begins.judged exhausted
  intro cause blames
  rw [← blames]
  exact reject (cause token)

/-- A rule that has not spent its budget does the same with any larger one. -/
theorem eq {first second : Parser α} (mirrors : Mirrors id first second tape)
    (lasts : ∀ stopped, first tape ≠ .error .exhausted stopped) : second tape = first tape := by
  have alike := mirrors tape (.refl tape)
  generalize first tape = reached at alike lasts ⊢
  generalize second tape = ended at alike ⊢
  cases alike with
  | exhausted stopped _ => exact absurd rfl (lasts stopped)
  | value result related => rw [related.eq]
  | rejected diagnostic related => rw [related.eq, Diagnostic.map_id]

variable (kinds : ∀ token, (f token).kind = token.kind)

include kinds

theorem combines : Combines .anywhere f (fun _ => True) (Mirrors f) where
  kinds := kinds
  onValue result := fun _ related => .value result related
  onBind := bind
  congr _ same same' mirrors := by
    intro image related
    rw [same _ rfl, same' image related.peek]
    exact mirrors image related
  onTake _ _ := take kinds
  onReject _ expected := reject (.unexpected expected _)

/-- Reading goes by kinds alone, and a larger budget changes nothing. -/
theorem discipline : Discipline .anywhere f (fun _ => True) (Mirrors f) := by
  apply (combines kinds).discipline (fun _ => trivial)
  · exact fun _ other => ⟨exhausted other, exhausted other⟩
  · intro α _ tape cause _ blames
    rw [← blames]
    exact reject (cause tape.peek)

end Mirrors

end Parser

end Monkey
