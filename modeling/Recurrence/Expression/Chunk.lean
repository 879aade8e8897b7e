import Recurrence.Field
import Recurrence.Text.Cut
import Recurrence.Text.Numeral
import Recurrence.ValueSet

/-!
# Chunks of a field

A chunk is one of the comma-separated parts of a field: `*`, a value or a range `a-b` of values, each optionally followed
by a step `/n`. A value is a name of the field or a decimal literal up to 9999; the bounds of the field do not restrict
it. A step runs from 1 to the number of values between the bounds.

`Chunk.read` gives the set that a chunk stands for. A malformed chunk has one cause, and a bad step is found before a bad
value.
-/

namespace Recurrence.Chunk

/-- Why a chunk stands for no set of its own. -/
inductive Error where
  /-- The text after the slash is no step of the field. -/
  | badStep
  /-- The text where a value stands is neither a name of the field nor a literal. -/
  | badValue
  /-- The right end of the range is below its left end. -/
  | reversedRange
  deriving DecidableEq, Repr

/-- The greatest literal that a chunk may hold, whatever the field. -/
def greatestLiteral : Nat := 9999

/-- The value that a text stands for in a field. -/
def value? (f : Field) (cs : List Char) : Option Nat :=
  (f.named? (String.ofList cs)).or ((Text.unsigned? cs).filter (· ≤ greatestLiteral))

/-- The step that a text stands for in a field. -/
def step? (f : Field) (cs : List Char) : Option Nat :=
  (Text.unsigned? cs).filter (fun n => 1 ≤ n && n ≤ f.max - f.min + 1)

/-- The first and last value of the part before the slash. A single value before a step reaches up to the top of the
field, or stands alone when it is above the top. -/
def ends (f : Field) (range : List Char) (stepped : Bool) : Except Error (Nat × Nat) :=
  match Text.cut '-' range with
  | (['*'], none) => .ok (f.min, f.max)
  | (single, none) =>
    match value? f single with
    | some v => .ok (v, if stepped then max f.max v else v)
    | none => .error .badValue
  | (left, some right) =>
    match value? f left, value? f right with
    | some a, some b => if b < a then .error .reversedRange else .ok (a, b)
    | _, _ => .error .badValue

/-- The step of a chunk, 1 when it has none. -/
def stride (f : Field) (stepText : Option (List Char)) : Except Error Nat :=
  match stepText with
  | none => .ok 1
  | some cs =>
    match step? f cs with
    | some n => .ok n
    | none => .error .badStep

/-- The set that a chunk stands for. -/
def read (f : Field) (chunk : List Char) : Except Error ValueSet := do
  let (range, stepText) := Text.cut '/' chunk
  let step ← stride f stepText
  let (first, last) ← ends f range stepText.isSome
  return .progression first last step

end Recurrence.Chunk
