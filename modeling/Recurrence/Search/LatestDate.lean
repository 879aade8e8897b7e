import Recurrence.Calendar.Date
import Recurrence.Expression.Basic

/-!
# Search: the latest date

`Expression.OnDate` says which dates an expression picks, and `Expression.latestDate?` finds the latest of them up to a
given date. The search takes years, months and days of the month from their sets in descending order. Only the year of
the given date limits the month, and only its month in that year limits the day.
-/

namespace Recurrence.Expression

/-- An expression picks a date from 1970 on whose year, month, day of the month and day of the week are in its sets. -/
def OnDate (e : Expression) (d : Date) : Prop :=
  Field.year.min ≤ d.year ∧ d.year.toNat ∈ e.year ∧ d.month ∈ e.month ∧ d.day ∈ e.dayOfMonth ∧ d.weekday ∈ e.dayOfWeek

instance (e : Expression) (d : Date) : Decidable (e.OnDate d) :=
  inferInstanceAs (Decidable (_ ∧ _))

/-- The latest date up to `upTo` that an expression picks. -/
def latestDate? (e : Expression) (upTo : Date) : Option Date :=
  (e.year.downFrom upTo.year.toNat Field.year.min).findSome? fun (year : Nat) =>
    let inYear := (year : Int) = upTo.year
    (e.month.downFrom (if inYear then upTo.month else 12) 1).findSome? fun month =>
      let length := monthLength (isLeapYear year) month
      let lastDay := if inYear ∧ month = upTo.month then min upTo.day length else length
      ((e.dayOfMonth.downFrom lastDay 1).map (Date.mk year month)).find? fun d => d.weekday ∈ e.dayOfWeek

end Recurrence.Expression
