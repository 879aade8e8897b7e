import Recurrence.Countdown.Basic
import Recurrence.Countdown.Clock
import Recurrence.Offset.Resolve
import Recurrence.Schedule.Selection

/-!
# Schedules

The candidates of one countdown, and the specification of the offset that their expressions are meant in. An instant is
shifted by the resolved offset before the candidates are asked for it.
-/

namespace Recurrence

/-- Candidates, and the offset that they are meant in. -/
structure Schedule where
  candidates : List Candidate
  offset : String
  deriving DecidableEq

namespace Schedule

/-- An instant shifted by an offset in minutes. -/
def shift (now : Int64) (offset : Int32) : Int64 :=
  satAdd now (offset.toInt64 * 60000)

/-- The selection at an instant of UTC, for a client's offset. -/
def selection (schedule : Schedule) (now : Int64) (client : Int32) (catalog : Offset.Catalog) : Selection :=
  .ofCandidates schedule.candidates (shift now (Offset.resolve schedule.offset client catalog))

/-- The countdown that begins at a local reading. -/
def countdown (schedule : Schedule) (clock : TrustedClock) (reading : Int64) (client : Int32)
    (catalog : Offset.Catalog) : Countdown :=
  ⟨(schedule.selection (clock.now reading) client catalog).remaining, reading⟩

end Schedule

end Recurrence
