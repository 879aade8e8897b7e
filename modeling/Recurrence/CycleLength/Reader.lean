import Recurrence.CycleLength.Basic
import Recurrence.Text.Blank
import Recurrence.Text.Placed

/-!
# Cycle lengths: reading

The grammar, over the characters that are not blank:

    sum     = product (('+' | '-') product)*
    product = factor (('*' | '/') factor)*
    factor  = digits unit? | '(' sum ')'
    unit    = 's' | 'm' | 'h' | 'd' | 'w'

Each reader takes the longest phrase at the start of its input and leaves the rest, which is never longer than the input;
a reader that is stopped leaves nothing. Operators of one kind group to the left.
-/

namespace Recurrence.CycleLength

open Text (Placed)

/-- What a reader made of an input: a calculation, and the characters after it. -/
structure Reading (cs : List Placed) where
  tree : Tree
  rest : List Placed
  length_le : rest.length ≤ cs.length

/-- A reading of the end of an input is a reading of the input. -/
def Reading.widen {cs ds : List Placed} (r : Reading ds) (h : ds.length ≤ cs.length) : Reading cs :=
  ⟨r.tree, r.rest, Nat.le_trans r.length_le h⟩

/-- The reading that leaves the whole input. -/
def Reading.done (tree : Tree) (cs : List Placed) : Reading cs :=
  ⟨tree, cs, Nat.le_refl _⟩

/-- The reading that is stopped and leaves nothing. -/
def Reading.stop (tree : Tree) (cs : List Placed) : Reading cs :=
  ⟨tree, [], Nat.zero_le _⟩

/-- The digits at the start of an input, and the unit after them if there is one. -/
def readNumber (cs : List Placed) : Reading cs :=
  let digits := cs.takeWhile (·.char.isDigit)
  let value := Nat.ofDigitChars 10 (digits.map Placed.char) 0
  let rest := cs.dropWhile (·.char.isDigit)
  have hrest : rest.length ≤ cs.length := (List.dropWhile_sublist _).length_le
  match hr : rest with
  | [] => ⟨.number value .second, [], Nat.zero_le _⟩
  | c :: after =>
    match TimeUnit.ofChar? c.char with
    | some unit => ⟨.number value unit, after, by simp only [List.length_cons] at hrest; omega⟩
    | none => ⟨.number value .second, c :: after, hrest⟩

mutual

/-- A sum at the start of an input. -/
def readSum (cs : List Placed) : Reading cs :=
  let first := readProduct cs
  (readTerms first.tree first.rest).widen first.length_le
  termination_by (cs.length, 4)
  decreasing_by
  · exact Prod.Lex.right _ (by decide)
  · have := first.length_le
    rcases Nat.lt_or_eq_of_le this with h | h
    · exact Prod.Lex.left _ _ h
    · rw [h]; exact Prod.Lex.right _ (by decide)

/-- The operators and products that go on with a sum. -/
def readTerms (sum : Tree) (cs : List Placed) : Reading cs :=
  match cs with
  | [] => .done sum []
  | c :: rest =>
    match Operator.additive? c.char with
    | none => .done sum (c :: rest)
    | some op =>
      let next := readProduct rest
      have h : next.rest.length ≤ (c :: rest).length := Nat.le_succ_of_le next.length_le
      (readTerms (.operation op sum next.tree) next.rest).widen h
  termination_by (cs.length, 3)
  decreasing_by
  · exact Prod.Lex.left _ _ (Nat.lt_succ_self _)
  · exact Prod.Lex.left _ _ (Nat.lt_succ_of_le next.length_le)

/-- A product at the start of an input. -/
def readProduct (cs : List Placed) : Reading cs :=
  let first := readFactor cs
  (readFactors first.tree first.rest).widen first.length_le
  termination_by (cs.length, 2)
  decreasing_by
  · exact Prod.Lex.right _ (by decide)
  · have := first.length_le
    rcases Nat.lt_or_eq_of_le this with h | h
    · exact Prod.Lex.left _ _ h
    · rw [h]; exact Prod.Lex.right _ (by decide)

/-- The operators and factors that go on with a product. -/
def readFactors (product : Tree) (cs : List Placed) : Reading cs :=
  match cs with
  | [] => .done product []
  | c :: rest =>
    match Operator.multiplicative? c.char with
    | none => .done product (c :: rest)
    | some op =>
      let next := readFactor rest
      have h : next.rest.length ≤ (c :: rest).length := Nat.le_succ_of_le next.length_le
      (readFactors (.operation op product next.tree) next.rest).widen h
  termination_by (cs.length, 1)
  decreasing_by
  · exact Prod.Lex.left _ _ (Nat.lt_succ_self _)
  · exact Prod.Lex.left _ _ (Nat.lt_succ_of_le next.length_le)

/-- A number or a sum in parentheses at the start of an input. -/
def readFactor (cs : List Placed) : Reading cs :=
  match cs with
  | [] => .stop (.missing .unexpectedEnd) []
  | c :: rest =>
    if c.char = '(' then
      let inner := readSum rest
      have h := inner.length_le
      match hr : inner.rest with
      | [] => .stop (.stopped inner.tree (.unbalanced c.offset)) _
      | d :: after =>
        if d.char = ')' then
          ⟨inner.tree, after, by simp only [hr, List.length_cons] at h ⊢; omega⟩
        else .stop (.stopped inner.tree (.unbalanced c.offset)) _
    else if c.char.isDigit then readNumber (c :: rest)
    else .stop (.missing (.unexpectedChar c.offset c.char)) _
  termination_by (cs.length, 0)
  decreasing_by exact Prod.Lex.left _ _ (Nat.lt_succ_self _)

end

/-- The characters of a text that are not blank. -/
def inked (text : String) : List Placed :=
  (Text.placed text.toList).filter (fun c => !Text.isBlank c.char)

/-- The calculation that a text writes. What is left after it stops the reading. -/
def readTree (text : String) : Tree :=
  let sum := readSum (inked text)
  match sum.rest with
  | [] => sum.tree
  | c :: _ => .stopped sum.tree (if c.char = ')' then .unbalanced c.offset else .unexpectedChar c.offset c.char)

/-- The cycle length that a text writes, in seconds. -/
def read (text : String) : Except Error UInt64 :=
  (readTree text).length

end Recurrence.CycleLength
