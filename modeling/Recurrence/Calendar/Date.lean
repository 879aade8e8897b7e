/-!
# Calendar: civil dates

Dates of the proleptic Gregorian calendar, numbered by the days since 1970-01-01. The numbering is a formula in one
direction (`Date.toDays`) and, in the other, a division by the calendar's cycles of 400, 100, 4 and 1 years
(`Date.ofDays`). The day of the week follows from the number alone.
-/

namespace Recurrence

/-- Every fourth year is a leap year, except the hundreds that are not divisible by 400. -/
def isLeapYear (year : Int) : Bool :=
  year % 4 = 0 && (year % 100 ≠ 0 || year % 400 = 0)

/-- The length of a month, counted from 1, in a leap year or another year. -/
def monthLength (leap : Bool) (month : Nat) : Nat :=
  match month with
  | 2 => if leap then 29 else 28
  | 4 | 6 | 9 | 11 => 30
  | _ => 31

/-- The number of days of a year before a month of it. -/
def daysBeforeMonth (leap : Bool) (month : Nat) : Nat :=
  [0, 31, 59, 90, 120, 151, 181, 212, 243, 273, 304, 334].getD (month - 1) 0 + if leap && 2 < month then 1 else 0

/-- The number of days from 1970-01-01 to the first day of a year, negative for the years before. -/
def daysBeforeYear (year : Int) : Int :=
  365 * (year - 1) + (year - 1) / 4 - (year - 1) / 100 + (year - 1) / 400 - 719162

/-- A year, a month from 1 and a day of the month from 1. Not every such triple is a date of the calendar. -/
structure Date where
  year : Int
  month : Nat
  day : Nat
  deriving DecidableEq, Repr

namespace Date

/-- A date is in the calendar when its month and its day exist. -/
def IsReal (d : Date) : Prop :=
  1 ≤ d.month ∧ d.month ≤ 12 ∧ 1 ≤ d.day ∧ d.day ≤ monthLength (isLeapYear d.year) d.month

instance (d : Date) : Decidable d.IsReal :=
  inferInstanceAs (Decidable (_ ∧ _))

/-- The number of days from 1970-01-01 to a date. -/
def toDays (d : Date) : Int :=
  daysBeforeYear d.year + daysBeforeMonth (isLeapYear d.year) d.month + d.day - 1

/-- The date of a day of a year, with days counted from 0: its month is the last one that begins by then. -/
def ofDayOfYear (year : Int) (dayOfYear : Nat) : Date :=
  let leap := isLeapYear year
  let month := (List.range' 1 12).countP (fun m => daysBeforeMonth leap m ≤ dayOfYear)
  ⟨year, month, dayOfYear - daysBeforeMonth leap month + 1⟩

/-- The date that lies a number of days after 1970-01-01. The last year of a hundred and the last of four may be a day
longer than the others, so their quotients stop at 3. -/
def ofDays (days : Int) : Date :=
  let n := days + 719162
  let fourHundreds := n / 146097
  let r := n % 146097
  let hundreds := min (r / 36524) 3
  let r := r - 36524 * hundreds
  let fours := r / 1461
  let r := r % 1461
  let ones := min (r / 365) 3
  ofDayOfYear (400 * fourHundreds + 100 * hundreds + 4 * fours + ones + 1) (r - 365 * ones).toNat

/-- The day of the week of a date, from 0 for Sunday to 6 for Saturday. The day numbered 0 was a Thursday. -/
def weekday (d : Date) : Nat :=
  ((d.toDays + 4) % 7).toNat

/-- The date one day earlier. -/
def yesterday (d : Date) : Date :=
  ofDays (d.toDays - 1)

end Date

/-- The days before the next month are those before a month and those in it. -/
theorem daysBeforeMonth_succ (leap : Bool) {month : Nat} (h : 1 ≤ month) (h' : month < 12) :
    daysBeforeMonth leap (month + 1) = daysBeforeMonth leap month + monthLength leap month := by
  have key : ∀ leap : Bool, ∀ m : Nat, m < 12 → 1 ≤ m →
      daysBeforeMonth leap (m + 1) = daysBeforeMonth leap m + monthLength leap m := by decide
  exact key leap month h' h

end Recurrence
