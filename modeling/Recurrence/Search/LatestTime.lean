import Recurrence.Calendar.Moment
import Recurrence.Expression.Basic

/-!
# Search: the latest time of day

`Expression.AtTime` says which times of day an expression picks, and `Expression.latestTime?` finds the latest of them up
to a given time. The minute of the given time is a limit in its own hour only, and its second in its own minute only.
-/

namespace Recurrence.Expression

/-- An expression picks a time of day whose hour, minute and second are in its sets. -/
def AtTime (e : Expression) (t : TimeOfDay) : Prop :=
  t.hour ∈ e.hour ∧ t.minute ∈ e.minute ∧ t.second ∈ e.second

instance (e : Expression) (t : TimeOfDay) : Decidable (e.AtTime t) :=
  inferInstanceAs (Decidable (_ ∧ _))

/-- The latest time of day up to `upTo` that an expression picks. -/
def latestTime? (e : Expression) (upTo : TimeOfDay) : Option TimeOfDay :=
  (e.hour.downFrom upTo.hour 0).findSome? fun hour =>
    let inHour := hour = upTo.hour
    (e.minute.downFrom (if inHour then upTo.minute else 59) 0).findSome? fun minute =>
      let lastSecond := if inHour ∧ minute = upTo.minute then upTo.second else 59
      (e.second.downFrom lastSecond 0).head?.map (TimeOfDay.mk hour minute)

end Recurrence.Expression
