import Recurrence.Expression.Chunk

/-!
# Faults of an expression

What can be said about a text that is read as an expression. A defect is a place where the text is not an expression; a
set that reaches outside the bounds of its field is reported too, but is no defect, because its values are kept.
-/

namespace Recurrence.Expression

/-- A place where a text is not an expression. -/
inductive Defect where
  /-- The text has more words than there are fields. -/
  | surplusWords (count : Nat)
  /-- A chunk of a field is malformed. -/
  | malformed (field : Field) (cause : Chunk.Error) (chunk : String)
  deriving DecidableEq, Repr

namespace Defect

/-- The field that a defect is reported for. Surplus words follow the last field. -/
def field : Defect → Field
  | surplusWords _ => .year
  | malformed field _ _ => field

/-- What is wrong, without the field. -/
def text : Defect → String
  | surplusWords count => s!"Too many fields, 7 expected but {count} supplied"
  | malformed _ .reversedRange chunk => s!"Invalid Range {chunk}"
  | malformed _ .badValue chunk => s!"Invalid Value {chunk}"
  | malformed _ .badStep chunk => s!"Invalid Step {chunk}"

/-- The message of a text that is refused for a defect. -/
def message (d : Defect) : String :=
  s!"Invalid {d.field.name} field: {d.text}"

end Defect

/-- Something to report about a text that is read as an expression. -/
inductive Fault where
  /-- A defect of the text. -/
  | defect (d : Defect)
  /-- The set of a field reaches outside its bounds, from `lowest` to `highest`. -/
  | outOfBounds (field : Field) (lowest highest : Nat)
  deriving DecidableEq, Repr

namespace Fault

/-- The field that a fault is reported for. -/
def field : Fault → Field
  | defect d => d.field
  | outOfBounds field _ _ => field

/-- What is wrong, without the field. -/
def text : Fault → String
  | defect d => d.text
  | outOfBounds field lowest highest => s!"Values {lowest}-{highest} outside of bounds {field.min}-{field.max}"

/-- The message of a fault. -/
def message (fault : Fault) : String :=
  s!"{fault.field.name}: {fault.text}"

/-- The defect that a fault is, if it is one. -/
def defect? : Fault → Option Defect
  | defect d => some d
  | outOfBounds .. => none

end Fault

end Recurrence.Expression
