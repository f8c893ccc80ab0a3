/-!
# Cutting a text into pieces

A text is a list of characters.  A scanner finds the next piece of a text and
says what is left after it; `pieces` repeats the scanner until it finds no more.
That every piece is followed by a shorter text is part of the scanner's result,
so the repetition ends on every text.
-/

namespace TaskTree
namespace Text

/-- The number of bytes of a text in UTF-8. -/
def byteLength : List Char → Nat
  | [] => 0
  | c :: s => c.utf8Size + byteLength s

@[simp] theorem byteLength_nil :
    byteLength [] = 0 := by
  rfl

@[simp] theorem byteLength_cons
    (c : Char) (s : List Char) :
    byteLength (c :: s) = c.utf8Size + byteLength s := by
  rfl

@[simp] theorem byteLength_append
    (s t : List Char) :
    byteLength (s ++ t) = byteLength s + byteLength t := by
  induction s with
  | nil =>
      simp
  | cons c s ih =>
      simp [ih, Nat.add_assoc]

/-- What is left after the longest run of characters with a property is no longer than the
text. -/
theorem length_dropWhile_le
    (p : Char → Bool) (s : List Char) :
    (s.dropWhile p).length ≤ s.length :=
  (List.dropWhile_sublist p).length_le

/-- A piece found at the start of a text, and the shorter text after it. -/
structure Piece (α : Type) (s : List Char) where
  item : α
  rest : List Char
  shorter : rest.length < s.length

/-- All pieces of a text, in order, as one scanner finds them. -/
def pieces {α : Type} (scan : (s : List Char) → Option (Piece α s)) (s : List Char) :
    List α :=
  match scan s with
  | none => []
  | some piece => piece.item :: pieces scan piece.rest
termination_by s.length
decreasing_by exact piece.shorter

/-- A text in which nothing is found has no pieces. -/
theorem pieces_eq_nil
    {α : Type} {scan : (s : List Char) → Option (Piece α s)} {s : List Char}
    (h : scan s = none) :
    pieces scan s = [] := by
  rw [pieces, h]

/-- The pieces of a text are the first one and the pieces of what is left. -/
theorem pieces_eq_cons
    {α : Type} {scan : (s : List Char) → Option (Piece α s)} {s : List Char}
    {piece : Piece α s}
    (h : scan s = some piece) :
    pieces scan s = piece.item :: pieces scan piece.rest := by
  rw [pieces, h]

end Text
end TaskTree
