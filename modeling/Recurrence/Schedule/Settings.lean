import Recurrence.CycleLength.Reader
import Recurrence.Expression.Reader
import Recurrence.Schedule.Basic

/-!
# Settings of a schedule

A schedule as it is written down: expressions and cycle lengths in two lists, paired by position, and an offset. When the
lists differ in length the longer one is cut (`Settings.mismatch?` tells so), and a cycle length that cannot be read is
taken to be a day. A bad entry thus never changes another.
-/

namespace Recurrence

/-- The expressions, cycle lengths and offset of a schedule, as texts. What is left out is a cycle of one day that begins
at midnight in UTC. -/
structure Settings where
  starts : List String := ["0 0 0 * * *"]
  intervals : List String := ["86400"]
  offset : String := "0"
  deriving DecidableEq, Repr

/-- Two lists that differ in length. -/
structure LengthMismatch where
  starts : Nat
  intervals : Nat
  deriving DecidableEq, Repr

namespace LengthMismatch

/-- The number of pairs that the lists make. -/
def used (m : LengthMismatch) : Nat :=
  min m.starts m.intervals

/-- The message of a mismatch. -/
def message (m : LengthMismatch) : String :=
  s!"{m.starts} starts but {m.intervals} intervals, using the first {m.used}"

end LengthMismatch

/-- The cycle of a day, for a cycle length that cannot be read. -/
def dayCycle : UInt64 := 86400

/-- The candidate that an expression and a cycle length stand for. -/
def Candidate.ofTexts (start interval : String) : Candidate :=
  ⟨Expression.read start, (CycleLength.read interval).toOption.getD dayCycle⟩

namespace Settings

/-- The lengths of the lists, when they differ. -/
def mismatch? (settings : Settings) : Option LengthMismatch :=
  if settings.starts.length = settings.intervals.length then none
  else some ⟨settings.starts.length, settings.intervals.length⟩

/-- The schedule that settings stand for. -/
def schedule (settings : Settings) : Schedule :=
  ⟨List.zipWith Candidate.ofTexts settings.starts settings.intervals, settings.offset⟩

/-- There is one candidate for each pair. -/
theorem length_candidates (settings : Settings) :
    settings.schedule.candidates.length = min settings.starts.length settings.intervals.length := by
  simp [schedule]

end Settings

end Recurrence
