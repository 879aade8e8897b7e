import Recurrence.Calendar.Date

/-!
# Calendar: moments

A moment is a date and a time of day to the whole second. An instant, counted in milliseconds since the start of
1970-01-01, falls into the moment that began last by then (`Moment.ofMillis`); a moment begins at `Moment.toMillis`.
There are no leap seconds, so every day has 86400 seconds.
-/

namespace Recurrence

/-- An hour, a minute and a second. -/
structure TimeOfDay where
  hour : Nat
  minute : Nat
  second : Nat
  deriving DecidableEq, Repr

namespace TimeOfDay

/-- A time is on the clock when its hour, minute and second exist. -/
def IsReal (t : TimeOfDay) : Prop :=
  t.hour ≤ 23 ∧ t.minute ≤ 59 ∧ t.second ≤ 59

instance (t : TimeOfDay) : Decidable t.IsReal :=
  inferInstanceAs (Decidable (_ ∧ _))

/-- The last second of a day. -/
def endOfDay : TimeOfDay :=
  ⟨23, 59, 59⟩

/-- The seconds from midnight to a time. -/
def toSeconds (t : TimeOfDay) : Nat :=
  3600 * t.hour + 60 * t.minute + t.second

/-- The time that lies a number of seconds after midnight. -/
def ofSeconds (n : Nat) : TimeOfDay :=
  ⟨n / 3600, n % 3600 / 60, n % 60⟩

/-- A time of day is found again from its seconds. -/
theorem toSeconds_ofSeconds (n : Nat) : (ofSeconds n).toSeconds = n := by
  simp only [ofSeconds, toSeconds]
  omega

/-- Every second of a day is on the clock. -/
theorem isReal_ofSeconds {n : Nat} (h : n < 86400) : (ofSeconds n).IsReal := by
  simp only [ofSeconds, IsReal]
  omega

end TimeOfDay

/-- A date and a time of day. -/
structure Moment where
  date : Date
  time : TimeOfDay
  deriving DecidableEq, Repr

namespace Moment

/-- The instant at which a moment begins. -/
def toMillis (m : Moment) : Int :=
  1000 * (86400 * m.date.toDays + m.time.toSeconds)

/-- The moment that an instant falls into. -/
def ofMillis (millis : Int) : Moment :=
  let seconds := millis / 1000
  ⟨Date.ofDays (seconds / 86400), TimeOfDay.ofSeconds (seconds % 86400).toNat⟩

end Moment

/-- The calendar covers the years from -262143 to 262142; the instants outside have no moment. -/
def InCalendar (millis : Int) : Prop :=
  -8334601228800000 ≤ millis ∧ millis ≤ 8210266876799999

instance (millis : Int) : Decidable (InCalendar millis) :=
  inferInstanceAs (Decidable (_ ∧ _))

end Recurrence
