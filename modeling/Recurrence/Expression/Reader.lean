import Recurrence.Expression.Basic
import Recurrence.Expression.Fault
import Recurrence.Text.Blank

/-!
# Reading an expression

A text is cut into words, each word is given to a field, and the set of a field is the union of its word's chunks. Reading
never fails: a malformed chunk counts as the lowest value of its field, and words after the seventh are left out.
`Expression.faults` lists what was passed over, in reading order; `Expression.readStrict` refuses a text that has a defect.
-/

namespace Recurrence.Expression

/-! ### One field -/

/-- The chunks of a word. -/
def chunks (word : List Char) : List (List Char) :=
  word.splitOn ','

/-- The set of a chunk; the lowest value of the field alone when the chunk is malformed. -/
def chunkValues (f : Field) (chunk : List Char) : ValueSet :=
  match Chunk.read f chunk with
  | .ok s => s
  | .error _ => .singleton f.min

/-- The defect of a chunk, if it is malformed. -/
def chunkDefect? (f : Field) (chunk : List Char) : Option Defect :=
  match Chunk.read f chunk with
  | .ok _ => none
  | .error cause => some (.malformed f cause (String.ofList chunk))

/-- In the day of the week 7 is Sunday and becomes 0. -/
def foldSunday (f : Field) (s : ValueSet) : ValueSet :=
  if f.sundayIsSeven ∧ 7 ∈ s then (ValueSet.singleton 0).union (s.filter (· ≠ 7)) else s

/-- The set that a word stands for in a field. -/
def wordValues (f : Field) (word : List Char) : ValueSet :=
  foldSunday f ((chunks word).foldr (fun chunk s => (chunkValues f chunk).union s) .empty)

/-- The fault of a set that reaches outside the bounds of its field. -/
def boundsFault? (f : Field) (s : ValueSet) : Option Fault :=
  match s.min?, s.max? with
  | some lowest, some highest =>
    if lowest < f.min ∨ f.max < highest then some (.outOfBounds f lowest highest) else none
  | _, _ => none

/-- The faults of a word: its malformed chunks from left to right, then the bounds of the whole set. -/
def wordFaults (f : Field) (word : List Char) : List Fault :=
  ((chunks word).filterMap (chunkDefect? f)).map .defect ++ (boundsFault? f (wordValues f word)).toList

/-! ### All fields -/

/-- The word of a field among the words of a text. Six or more words begin with the seconds. Fewer end with the day of
the week, and the fields before them, as well as a year that is left out, have their default text. -/
def wordFor (words : List (List Char)) (f : Field) : List Char :=
  let skipped := 6 - words.length
  if f.index < skipped then f.impliedText.toList
  else words.getD (f.index - skipped) f.impliedText.toList

/-- The words of a text. -/
def wordsOf (text : String) : List (List Char) :=
  Text.words text.toList

/-- The expression that a text stands for. -/
def read (text : String) : Expression :=
  let words := wordsOf text
  ofFields fun f => wordValues f (wordFor words f)

/-- The faults of a text: surplus words first, then those of each field in order. -/
def faults (text : String) : List Fault :=
  let words := wordsOf text
  let surplus := if 7 < words.length then [Fault.defect (.surplusWords words.length)] else []
  surplus ++ Field.all.flatMap fun f => wordFaults f (wordFor words f)

/-- The expression that a text stands for, or its first defect. Values out of bounds are no defect. -/
def readStrict (text : String) : Except Defect Expression :=
  match (faults text).findSome? Fault.defect? with
  | some d => .error d
  | none => .ok (read text)

/-- A text is refused exactly if one of its faults is a defect; otherwise both ways of reading agree. -/
theorem readStrict_eq_ok_iff {text : String} {e : Expression} :
    readStrict text = .ok e ↔ (∀ fault ∈ faults text, fault.defect? = none) ∧ e = read text := by
  unfold readStrict
  cases h : (faults text).findSome? Fault.defect? with
  | none =>
    simp only [Except.ok.injEq]
    exact ⟨fun he => ⟨List.findSome?_eq_none_iff.mp h, he.symm⟩, fun he => he.2.symm⟩
  | some d =>
    simp only [reduceCtorEq, false_iff, not_and]
    intro hn
    rw [List.findSome?_eq_none_iff.mpr hn] at h
    cases h

end Recurrence.Expression
