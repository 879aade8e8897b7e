import Recurrence.Field
import Recurrence.ValueSet

/-!
# Schedule expressions

An expression holds one set of values for each field. It says when something recurs: at every second whose calendar
fields all lie in their sets, the day of the month and the day of the week both.
-/

namespace Recurrence

/-- One set of values per field. -/
structure Expression where
  second : ValueSet
  minute : ValueSet
  hour : ValueSet
  dayOfMonth : ValueSet
  month : ValueSet
  dayOfWeek : ValueSet
  year : ValueSet
  deriving DecidableEq

namespace Expression

/-- The set of a field. -/
def values (e : Expression) : Field → ValueSet
  | .second => e.second
  | .minute => e.minute
  | .hour => e.hour
  | .dayOfMonth => e.dayOfMonth
  | .month => e.month
  | .dayOfWeek => e.dayOfWeek
  | .year => e.year

/-- The expression with a given set for every field. -/
def ofFields (sets : Field → ValueSet) : Expression :=
  ⟨sets .second, sets .minute, sets .hour, sets .dayOfMonth, sets .month, sets .dayOfWeek, sets .year⟩

@[simp] theorem values_ofFields (sets : Field → ValueSet) (f : Field) : (ofFields sets).values f = sets f := by
  cases f <;> rfl

/-- Expressions with the same set in every field are equal. -/
theorem ext_values {e e' : Expression} (h : ∀ f, e.values f = e'.values f) : e = e' := by
  cases e
  cases e'
  simp only [mk.injEq]
  exact ⟨h .second, h .minute, h .hour, h .dayOfMonth, h .month, h .dayOfWeek, h .year⟩

end Expression

end Recurrence
