import Mathlib
import Recurrence.Proofs.Calendar

/-!
# The calendar of the standard library

The standard library has dates of its own (`Std.Time.PlainDate`). Each is made with the evidence that its month has the day,
and its number is worked out another way than here, by eras of 400 years that begin in March. The two calendars are the same:
their months have the same lengths (`monthLength_eq_days`), they have the same dates (`Date.exists_ofPlain_iff`), and a date
has the same number of days since 1970-01-01 (`Date.toDays_ofPlain`) and the same day of the week (`Date.weekday_ofPlain`).
-/

namespace Recurrence

open Std.Time

/-! ### Months -/

/-- The leap years are the same. -/
theorem isLeapYear_toInt (year : Year.Offset) : isLeapYear year.toInt = year.isLeap := by
  have hdivides : ∀ n : Int, year.toInt.tmod n = 0 ↔ year.toInt % n = 0 := by
    intro n
    rw [← Int.dvd_iff_tmod_eq_zero, ← Int.dvd_iff_emod_eq_zero]
  rw [Bool.eq_iff_iff]
  simp [isLeapYear, Year.Offset.isLeap, hdivides]

/-- The months have the same lengths. -/
theorem monthLength_eq_days (leap : Bool) (month : Month.Ordinal) :
    (monthLength leap month.val.toNat : Int) = (month.days leap).val := by
  obtain ⟨m, h1, h12⟩ := month
  obtain rfl | rfl | rfl | rfl | rfl | rfl | rfl | rfl | rfl | rfl | rfl | rfl :
      m = 1 ∨ m = 2 ∨ m = 3 ∨ m = 4 ∨ m = 5 ∨ m = 6 ∨ m = 7 ∨ m = 8 ∨ m = 9 ∨ m = 10 ∨ m = 11 ∨ m = 12 := by
    omega
  all_goals cases leap <;> rfl

/-- No month has more than 31 days. -/
theorem monthLength_le (leap : Bool) (month : Nat) : monthLength leap month ≤ 31 := by
  simp only [monthLength]
  split
  · cases leap <;> decide
  all_goals decide

/-! ### Counting from March -/

namespace EraAux

/-- The days before a year, counted by eras of 400 years. -/
theorem daysBeforeYear_succ_eq_era (year : Int) :
    daysBeforeYear (year + 1) =
      146097 * (year / 400) + 365 * (year % 400) + year % 400 / 4 - year % 400 / 100 - 719162 := by
  simp only [daysBeforeYear]
  omega

/-- The era of a year, by a division toward zero. -/
theorem tdiv_era (year : Int) : (if year ≥ 0 then year else year - 399).tdiv 400 = year / 400 := by
  split
  · next h => exact Int.tdiv_eq_ediv_of_nonneg h
  · next h =>
    rw [← Int.neg_neg (year - 399), Int.neg_tdiv, Int.tdiv_eq_ediv_of_nonneg (by omega)]
    omega

/-- The days before January and February, counted from the March before. -/
theorem daysBeforeMonth_eq_of_le_two : ∀ leap : Bool, ∀ m : Nat, m < 3 → 1 ≤ m →
    (daysBeforeMonth leap m : Int) = (153 * ((m : Int) + 9) + 2) / 5 - 306 := by
  decide

/-- The days before the other months, counted from March. -/
theorem daysBeforeMonth_eq_of_two_lt : ∀ leap : Bool, ∀ m : Nat, m < 13 → 2 < m →
    (daysBeforeMonth leap m : Int) = (153 * ((m : Int) - 3) + 2) / 5 + yearLength leap - 306 := by
  decide

end EraAux

namespace Date

open EraAux

/-! ### Dates -/

/-- A date of the standard library, as a year, a month and a day of the month. -/
def ofPlain (p : PlainDate) : Date :=
  ⟨p.year.toInt, p.month.val.toNat, p.day.val.toNat⟩

/-- The standard library's date of a year, a month and a day of the month, if the month has the day. There is none beyond the
years that the calendar covers. -/
def plain? (d : Date) : Option PlainDate :=
  if h : (-262143 ≤ d.year ∧ d.year ≤ 262142) ∧ (1 ≤ d.month ∧ d.month ≤ 12) ∧ 1 ≤ d.day ∧ d.day ≤ 31 then
    PlainDate.ofYearMonthDay? (.ofInt d.year) ⟨d.month, by omega⟩ ⟨d.day, by omega⟩
  else none

/-- The standard library's dates are in the calendar. -/
theorem isReal_ofPlain (p : PlainDate) : (ofPlain p).IsReal := by
  have hmonth := p.month.property
  have hday := p.day.property
  have hlength := monthLength_eq_days p.year.isLeap p.month
  have hvalid : p.day.val ≤ (p.month.days p.year.isLeap).val := p.valid
  simp only [IsReal, ofPlain, isLeapYear_toInt]
  omega

/-- A date of the calendar is valid in the standard library. -/
theorem valid_of_isReal {d : Date} (h : d.IsReal) (hmonth : 1 ≤ (d.month : Int) ∧ (d.month : Int) ≤ 12)
    (hday : 1 ≤ (d.day : Int) ∧ (d.day : Int) ≤ 31) :
    Year.Offset.Valid (.ofInt d.year) ⟨d.month, hmonth⟩ ⟨d.day, hday⟩ := by
  have hlength := monthLength_eq_days (isLeapYear d.year) ⟨d.month, hmonth⟩
  have hle := h.2.2.2
  show (d.day : Int) ≤ (Month.Ordinal.days (Year.Offset.ofInt d.year).isLeap ⟨d.month, hmonth⟩).val
  rw [← isLeapYear_toInt]
  show (d.day : Int) ≤ (Month.Ordinal.days (isLeapYear d.year) ⟨d.month, hmonth⟩).val
  rw [← hlength]
  exact Int.ofNat_le.mpr hle

/-- The calendars have the same dates. -/
theorem exists_ofPlain_iff (d : Date) : (∃ p, ofPlain p = d) ↔ d.IsReal := by
  constructor
  · rintro ⟨p, rfl⟩
    exact isReal_ofPlain p
  · intro h
    obtain ⟨h1, h12, hfirst, hlast⟩ := h
    have hlength := monthLength_le (isLeapYear d.year) d.month
    have hmonth : 1 ≤ (d.month : Int) ∧ (d.month : Int) ≤ 12 := by omega
    have hday : 1 ≤ (d.day : Int) ∧ (d.day : Int) ≤ 31 := by omega
    exact ⟨⟨.ofInt d.year, ⟨d.month, hmonth⟩, ⟨d.day, hday⟩, valid_of_isReal ⟨h1, h12, hfirst, hlast⟩ hmonth hday⟩, rfl⟩

/-- A date of the calendar has its date in the standard library, in the years that the calendar covers. -/
theorem exists_plain?_eq {d : Date} (h : d.IsReal) (hyear : -262143 ≤ d.year ∧ d.year ≤ 262142) :
    ∃ p, d.plain? = some p ∧ ofPlain p = d := by
  obtain ⟨h1, h12, hfirst, hlast⟩ := h
  have hlength := monthLength_le (isLeapYear d.year) d.month
  have hvalid := valid_of_isReal ⟨h1, h12, hfirst, hlast⟩ (by omega) (by omega)
  refine ⟨⟨.ofInt d.year, ⟨d.month, by omega⟩, ⟨d.day, by omega⟩, hvalid⟩, ?_, rfl⟩
  rw [plain?, dif_pos ⟨hyear, ⟨h1, h12⟩, hfirst, by omega⟩]
  exact dif_pos hvalid

/-! ### Numbers -/

/-- The number of a date in the standard library, with divisions toward minus infinity. -/
theorem toEpochDay_eq (p : PlainDate) :
    let year := if p.month.val > 2 then p.year.toInt else p.year.toInt - 1
    p.toEpochDay.val = 146097 * (year / 400) + (365 * (year % 400) + year % 400 / 4 - year % 400 / 100) +
      (153 * (p.month.val + if p.month.val > 2 then -3 else 9) + 2) / 5 + p.day.val - 719469 := by
  intro year
  have hmonth := p.month.property
  have hnonneg : 0 ≤ 153 * (p.month.val + if p.month.val > 2 then -3 else 9) + 2 := by split <;> omega
  have hera := tdiv_era year
  generalize hquotient : (if year ≥ 0 then year else year - 399).tdiv 400 = era at hera
  have hrest : year - era * 400 = year % 400 := by omega
  have hdef : p.toEpochDay.val = era * 146097 +
      ((year - era * 400) * 365 + (year - era * 400).tdiv 4 - (year - era * 400).tdiv 100 +
        ((153 * (p.month.val + if p.month.val > 2 then -3 else 9) + 2).tdiv 5 + p.day.val - 1)) - 719468 := by
    rw [← hquotient]
    rfl
  rw [hdef, hrest, Int.tdiv_eq_ediv_of_nonneg (Int.emod_nonneg _ (by decide)),
    Int.tdiv_eq_ediv_of_nonneg (Int.emod_nonneg _ (by decide)), Int.tdiv_eq_ediv_of_nonneg hnonneg]
  omega

/-- A date has the same number in both calendars. -/
theorem toDays_ofPlain (p : PlainDate) : (ofPlain p).toDays = p.toEpochDay.val := by
  obtain ⟨h1, h12⟩ := p.month.property
  have hday := p.day.property
  have hmonth : ((p.month.val.toNat : Nat) : Int) = p.month.val := Int.toNat_of_nonneg (by omega)
  rw [toEpochDay_eq]
  simp only [ofPlain, toDays]
  -- January and February belong to the year before, which ends with them.
  by_cases hmarch : p.month.val > 2
  · have hbefore := daysBeforeMonth_eq_of_two_lt (isLeapYear p.year.toInt) p.month.val.toNat (by omega) (by omega)
    have hera := daysBeforeYear_succ_eq_era p.year.toInt
    rw [daysBeforeYear_succ] at hera
    rw [hmonth] at hbefore
    rw [if_pos hmarch, if_pos hmarch]
    omega
  · have hbefore := daysBeforeMonth_eq_of_le_two (isLeapYear p.year.toInt) p.month.val.toNat (by omega) (by omega)
    have hera := daysBeforeYear_succ_eq_era (p.year.toInt - 1)
    rw [Int.sub_add_cancel] at hera
    rw [hmonth] at hbefore
    rw [if_neg hmarch, if_neg hmarch]
    omega

/-! ### Days of the week -/

/-- A day of the week is made from its number, from 1 for Monday to 7 for Sunday. -/
theorem toNat_ofOrdinal (o : Weekday.Ordinal) : (Weekday.ofOrdinal o).toNat = o.val.toNat := by
  obtain ⟨n, h1, h7⟩ := o
  obtain rfl | rfl | rfl | rfl | rfl | rfl | rfl :
      n = 1 ∨ n = 2 ∨ n = 3 ∨ n = 4 ∨ n = 5 ∨ n = 6 ∨ n = 7 := by
    omega
  all_goals rfl

/-- A date has the same day of the week in both calendars. Sunday has the number 7 in the standard library. -/
theorem weekday_ofPlain (p : PlainDate) : (ofPlain p).weekday = p.weekday.toNat % 7 := by
  have hdef : p.weekday.toNat = (((((if p.toEpochDay.val ≥ -4 then (p.toEpochDay.val + 4) % 7
      else (p.toEpochDay.val + 5) % 7 + 6) - 1) % 7 + 7) % 7 + 1 : Int)).toNat :=
    toNat_ofOrdinal _
  rw [hdef, weekday, toDays_ofPlain]
  split <;> omega

end Date

end Recurrence
