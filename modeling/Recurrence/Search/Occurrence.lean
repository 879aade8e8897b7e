import Recurrence.Search.LatestDate
import Recurrence.Search.LatestTime

/-!
# Search: the latest occurrence

An expression occurs at the whole seconds whose date and time of day it picks. The latest occurrence up to an instant is on
the date of that instant, when the date is picked and a time is left on it; otherwise it is at the latest time of the
latest earlier date. Every date but the last has all its times, so a second date need not be tried.
-/

namespace Recurrence.Expression

/-- An expression occurs at an instant that is a whole second and whose date and time of day it picks. -/
def OccursAt (e : Expression) (millis : Int) : Prop :=
  millis % 1000 = 0 ∧ e.OnDate (Moment.ofMillis millis).date ∧ e.AtTime (Moment.ofMillis millis).time

instance (e : Expression) (millis : Int) : Decidable (e.OccursAt millis) :=
  inferInstanceAs (Decidable (_ ∧ _))

/-- The latest moment on the date of `upTo`, and not after it, that an expression picks. -/
def latestOnDate? (e : Expression) (upTo : Moment) : Option Moment :=
  if e.OnDate upTo.date then (e.latestTime? upTo.time).map (Moment.mk upTo.date) else none

/-- The latest moment before the date of `upTo` that an expression picks. -/
def latestBeforeDate? (e : Expression) (upTo : Moment) : Option Moment :=
  (e.latestDate? upTo.date.yesterday).bind fun date => (e.latestTime? .endOfDay).map (Moment.mk date)

/-- The latest moment up to `upTo` that an expression picks. -/
def latestMoment? (e : Expression) (upTo : Moment) : Option Moment :=
  (e.latestOnDate? upTo).or (e.latestBeforeDate? upTo)

/-- The latest instant up to `upTo` at which an expression occurs. There is none when the calendar does not cover `upTo`. -/
def latestInstant? (e : Expression) (upTo : Int) : Option Int :=
  if InCalendar upTo then (e.latestMoment? (Moment.ofMillis upTo)).map Moment.toMillis else none

/-- The milliseconds since the latest occurrence up to an instant. -/
def elapsed? (e : Expression) (now : Int64) : Option UInt64 :=
  (e.latestInstant? now.toInt).map fun instant => UInt64.ofNat (now.toInt - instant).toNat

/-- A run of searches, at most `count` of them: the instant that each finds, or nothing. A search goes on a millisecond
before the instant that the last one found, and the first that finds nothing ends the run. -/
def searches (e : Expression) (now : Int64) : Nat → List (Option Int64)
  | 0 => []
  | count + 1 =>
    match e.elapsed? now with
    | none => [none]
    | some elapsed =>
      let instant := now - elapsed.toInt64
      some instant :: e.searches (instant - 1) count

/-- The occurrences before an instant and at it, the latest first, at most `count` of them. -/
def latestInstants (e : Expression) (upTo : Int) : Nat → List Int
  | 0 => []
  | count + 1 =>
    match e.latestInstant? upTo with
    | none => []
    | some instant => instant :: e.latestInstants (instant - 1) count

end Recurrence.Expression
