import Recurrence.Text.Numeral

/-!
# Countdown: days, hours, minutes and seconds

A number of seconds as it is shown: four groups of digits with colons between them, each of at least two digits. The days
are not bounded, so their group may have more.
-/

namespace Recurrence

/-- A number of seconds, divided into larger units. -/
structure Breakdown where
  days : Nat
  hours : Nat
  minutes : Nat
  seconds : Nat
  deriving DecidableEq, Repr

namespace Breakdown

/-- The parts of a number of seconds. -/
def ofSeconds (total : Nat) : Breakdown :=
  ⟨total / 86400, total % 86400 / 3600, total % 3600 / 60, total % 60⟩

/-- The parts, from the days to the seconds. -/
def parts (b : Breakdown) : List Nat :=
  [b.days, b.hours, b.minutes, b.seconds]

/-- A number in decimal, with a zero before a single digit. -/
def twoDigits (n : Nat) : List Char :=
  (Text.decimal n).leftpad 2 '0'

/-- The parts as text. -/
def text (b : Breakdown) : String :=
  String.ofList ([':'].intercalate (b.parts.map twoDigits))

/-- The parts of a number of seconds make it up, and each but the days is below the next larger unit. -/
theorem ofSeconds_spec (total : Nat) :
    let b := ofSeconds total
    86400 * b.days + 3600 * b.hours + 60 * b.minutes + b.seconds = total ∧
      b.hours < 24 ∧ b.minutes < 60 ∧ b.seconds < 60 := by
  simp only [ofSeconds]
  omega

end Breakdown

end Recurrence
