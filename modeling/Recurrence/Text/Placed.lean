/-!
# Text: characters with their places

A character of a text together with the number of bytes that the characters before it take in UTF-8. An error that
points into a text names such a place, so it stays right when blanks between the characters are skipped.
-/

namespace Recurrence.Text

/-- A character and the byte offset at which it starts. -/
structure Placed where
  offset : Nat
  char : Char
  deriving DecidableEq, Repr

/-- Every character of a text with its place, when the text starts at `offset`. -/
def placedFrom (offset : Nat) : List Char → List Placed
  | [] => []
  | c :: cs => ⟨offset, c⟩ :: placedFrom (offset + c.utf8Size) cs

/-- Every character of a text with its place. -/
def placed (cs : List Char) : List Placed :=
  placedFrom 0 cs

/-- Giving places changes no character. -/
@[simp] theorem map_char_placedFrom (offset : Nat) (cs : List Char) : (placedFrom offset cs).map Placed.char = cs := by
  induction cs generalizing offset with
  | nil => rfl
  | cons c cs ih => simp [placedFrom, ih]

/-- A character before a text adds its own bytes. -/
theorem utf8ByteSize_ofList_cons (c : Char) (cs : List Char) :
    (String.ofList (c :: cs)).utf8ByteSize = c.utf8Size + (String.ofList cs).utf8ByteSize := by
  have h : String.ofList (c :: cs) = String.ofList [c] ++ String.ofList cs := by
    rw [← String.ofList_append]
    rfl
  rw [h, String.utf8ByteSize_append, ← String.singleton_eq_ofList, String.utf8ByteSize_singleton]

/-- A text that follows another starts after the bytes of the other. -/
theorem placedFrom_append (offset : Nat) (before cs : List Char) :
    placedFrom offset (before ++ cs) =
      placedFrom offset before ++ placedFrom (offset + (String.ofList before).utf8ByteSize) cs := by
  induction before generalizing offset with
  | nil => simp [placedFrom]
  | cons c before ih =>
    rw [utf8ByteSize_ofList_cons, ← Nat.add_assoc, List.cons_append, placedFrom, placedFrom, ih, List.cons_append]

end Recurrence.Text
