/-!
# Fields of a schedule expression

The seven positions of an expression, from the finest to the coarsest unit of time, with the facts that reading and
searching need: the bounds of a field, its text when it is left out, and the names that stand for some of its values.
-/

namespace Recurrence

/-- Every field of an expression restricts one calendar unit. -/
inductive Field where
  | second
  | minute
  | hour
  | dayOfMonth
  | month
  | dayOfWeek
  | year
  deriving DecidableEq, Repr

namespace Field

/-- The fields in the order in which an expression writes them. -/
def all : List Field :=
  [second, minute, hour, dayOfMonth, month, dayOfWeek, year]

/-- The position of a field in an expression, from 0. -/
def index : Field → Nat
  | second => 0
  | minute => 1
  | hour => 2
  | dayOfMonth => 3
  | month => 4
  | dayOfWeek => 5
  | year => 6

/-- The name of a field in messages. -/
def name : Field → String
  | second => "seconds"
  | minute => "minutes"
  | hour => "hours"
  | dayOfMonth => "day of month"
  | month => "month"
  | dayOfWeek => "day of week"
  | year => "year"

/-- The lowest value of a field. -/
def min : Field → Nat
  | second | minute | hour | dayOfWeek => 0
  | dayOfMonth | month => 1
  | year => 1970

/-- The highest value of a field. -/
def max : Field → Nat
  | second | minute => 59
  | hour => 23
  | dayOfMonth => 31
  | month => 12
  | dayOfWeek => 6
  | year => 2099

/-- The text that a field has when an expression leaves it out: the start of a day, on every day. -/
def impliedText : Field → String
  | second | minute | hour => "0"
  | dayOfMonth | month | dayOfWeek | year => "*"

/-- In the day of the week Sunday may also be written as 7. -/
def sundayIsSeven (f : Field) : Bool :=
  f = dayOfWeek

/-- The names of the values of a field, in ascending order of the value, from the lowest one on. -/
def valueNames : Field → List String
  | month => ["JAN", "FEB", "MAR", "APR", "MAY", "JUN", "JUL", "AUG", "SEP", "OCT", "NOV", "DEC"]
  | dayOfWeek => ["SUN", "MON", "TUE", "WED", "THU", "FRI", "SAT"]
  | _ => []

/-- The value that a name stands for in a field. Names are written in capitals. -/
def named? (f : Field) (name : String) : Option Nat :=
  (f.valueNames.idxOf? name).map (f.min + ·)

/-- A field stands at its index among all fields. -/
theorem all_getElem?_index (f : Field) : all[f.index]? = some f := by
  cases f <;> rfl

/-- Fields at the same index are equal. -/
theorem eq_of_index_eq {f f' : Field} (h : f.index = f'.index) : f = f' := by
  have hget := f'.all_getElem?_index
  rw [← h, f.all_getElem?_index, Option.some.injEq] at hget
  exact hget

/-- The lowest value of a field is not above its highest. -/
theorem min_le_max (f : Field) : f.min ≤ f.max := by
  cases f <;> decide

end Field

end Recurrence
