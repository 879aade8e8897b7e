import Recurrence.Countdown.Breakdown
import Recurrence.Saturating

/-!
# Countdown: seconds left

The seconds left of a cycle at one reading of the local clock, counted down with the readings that follow.
-/

namespace Recurrence

/-- The seconds left at a local reading in milliseconds. -/
structure Countdown where
  seconds : UInt64
  start : Int64
  deriving DecidableEq, Repr

namespace Countdown

/-- The whole seconds from the reading of a countdown to a later one. -/
def passed (c : Countdown) (reading : Int64) : UInt64 :=
  UInt64.ofNat ((since c.start reading).toInt / 1000).toNat

/-- The whole seconds left at a local reading. -/
def left (c : Countdown) (reading : Int64) : UInt64 :=
  monus c.seconds (c.passed reading)

/-- A countdown is over at a local reading when nothing is left. -/
def isOver (c : Countdown) (reading : Int64) : Bool :=
  c.left reading = 0

/-- What is left at a local reading, as it is shown. -/
def shown (c : Countdown) (reading : Int64) : Breakdown :=
  .ofSeconds (c.left reading).toNat

end Countdown

end Recurrence
