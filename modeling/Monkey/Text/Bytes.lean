/-
# Lengths in bytes

Positions in a source are byte offsets into its UTF-8 form, while reading goes
character by character. This length is what carries one to the other.
-/

namespace Monkey.Text

/-- The number of bytes that the characters take up in UTF-8. -/
def byteLength : List Char → Nat
  | [] => 0
  | c :: text => c.utf8Size + byteLength text

@[simp]
theorem byteLength_nil : byteLength [] = 0 := rfl

@[simp]
theorem byteLength_cons (c : Char) (text : List Char) :
    byteLength (c :: text) = c.utf8Size + byteLength text := rfl

@[simp]
theorem byteLength_append (first second : List Char) :
    byteLength (first ++ second) = byteLength first + byteLength second := by
  induction first with
  | nil => simp
  | cons c first ih => simp only [List.cons_append, byteLength_cons, ih, Nat.add_assoc]

/-- Cutting a text where a run of characters ends splits its length. -/
theorem byteLength_takeWhile_add_dropWhile (p : Char → Bool) (text : List Char) :
    byteLength (text.takeWhile p) + byteLength (text.dropWhile p) = byteLength text := by
  rw [← byteLength_append, List.takeWhile_append_dropWhile]

end Monkey.Text
