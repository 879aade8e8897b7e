/-!
# JSON: readers

A reader expects a value of one form at the start of a text and takes it from left to right, without looking further than
it has to. It stops at the first problem, so the kind of a `Fault` tells what the problem was there: the text ended, the
text is no JSON, or it is JSON of another form than expected. What is left after a value is shorter than the text it was
taken from, which is why reading ends.
-/

namespace Recurrence.Json

/-- Why a text was not taken as a value of the form expected. -/
inductive Fault (ε : Type) where
  /-- The text ends inside the value. -/
  | unfinished
  /-- The text is not JSON from here on. -/
  | malformed
  /-- The value is of another form. -/
  | unfit
  /-- The value has the form expected, and is refused for a reason of its own. -/
  | rejected (reason : ε)
  deriving DecidableEq, Repr

/-! ### What is left of a text -/

/-- What is left of a text after a part of it, which may be empty. -/
structure Left (cs : List Char) where
  rest : List Char
  length_le : rest.length ≤ cs.length

namespace Left

variable {cs : List Char}

/-- The whole text is left. -/
def all (cs : List Char) : Left cs :=
  ⟨cs, Nat.le_refl _⟩

/-- What is left of a text is left of it also when a character is before it. -/
def behind (c : Char) (l : Left cs) : Left (c :: cs) :=
  ⟨l.rest, Nat.le_succ_of_le l.length_le⟩

/-- What is left of what is left. -/
def trans (l : Left cs) (l' : Left l.rest) : Left cs :=
  ⟨l'.rest, Nat.le_trans l'.length_le l.length_le⟩

end Left

/-- A value taken from the start of a text, and what is left. -/
structure Taken (α : Type) (cs : List Char) where
  value : α
  rest : List Char
  shorter : rest.length < cs.length

namespace Taken

variable {α β : Type} {cs ds : List Char}

/-- A value that is taken with the first character. -/
def head (value : α) (c : Char) (cs : List Char) : Taken α (c :: cs) :=
  ⟨value, cs, Nat.lt_succ_self _⟩

/-- A value that is taken with the first character and a part of what follows. -/
def headAnd (value : α) (c : Char) (l : Left cs) : Taken α (c :: cs) :=
  ⟨value, l.rest, Nat.lt_succ_of_le l.length_le⟩

/-- What is taken from a text is taken from it also when a character is before it. -/
def behind (c : Char) (t : Taken α cs) : Taken α (c :: cs) :=
  ⟨t.value, t.rest, Nat.lt_succ_of_lt t.shorter⟩

/-- What is taken from a later part of a text is taken from the text. -/
def within (t : Taken α ds) (h : ds.length < cs.length) : Taken α cs :=
  ⟨t.value, t.rest, Nat.lt_trans t.shorter h⟩

/-- A value put together from one that is taken and one that is taken after it. -/
def andThen (t : Taken α cs) (t' : Taken β t.rest) : Taken β cs :=
  ⟨t'.value, t'.rest, Nat.lt_trans t'.shorter t.shorter⟩

/-- A value together with a part that follows it. -/
def andLeft (t : Taken α cs) (value : β) (l : Left t.rest) : Taken β cs :=
  ⟨value, l.rest, Nat.lt_of_le_of_lt l.length_le t.shorter⟩

/-- What is left after a value. -/
def left (t : Taken α cs) : Left cs :=
  ⟨t.rest, Nat.le_of_lt t.shorter⟩

/-- The value after a change that leaves the rest as it is. -/
def map (f : α → β) (t : Taken α cs) : Taken β cs :=
  ⟨f t.value, t.rest, t.shorter⟩

end Taken

/-- A reader takes a value of one form from the start of a text. -/
abbrev Reader (ε α : Type) := (cs : List Char) → Except (Fault ε) (Taken α cs)

/-! ### Spaces and names -/

/-- The characters that may stand between the parts of a value. -/
def isSpace (c : Char) : Bool :=
  c = ' ' || c = '\t' || c = '\n' || c = '\r'

/-- The first character that is not a space, and what follows it. -/
def first? (cs : List Char) : Option (Taken Char cs) :=
  match cs with
  | [] => none
  | c :: rest => if isSpace c then (first? rest).map (·.behind c) else some (.head c c rest)

/-- Goes on at the first character that is not a space. A text without one ends too early. -/
def atFirst {ε β : Type} (cs : List Char)
    (next : (c : Char) → (rest : List Char) → rest.length < cs.length → Except (Fault ε) β) : Except (Fault ε) β :=
  match first? cs with
  | none => .error .unfinished
  | some t => next t.value t.rest t.shorter

/-- The letters after the first one of the three values that are written as a name. -/
def nameAfter? : Char → Option (List Char)
  | 'n' => some ['u', 'l', 'l']
  | 't' => some ['r', 'u', 'e']
  | 'f' => some ['a', 'l', 's', 'e']
  | _ => none

/-- What is left of a text after given letters. -/
def afterLetters {ε : Type} (letters : List Char) (cs : List Char) : Except (Fault ε) (Left cs) :=
  match letters, cs with
  | [], cs => .ok (.all cs)
  | _ :: _, [] => .error .unfinished
  | letter :: letters, c :: cs =>
    if c = letter then (afterLetters letters cs).map (·.behind c) else .error .malformed

end Recurrence.Json
