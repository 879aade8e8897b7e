import Recurrence.Proofs.Calendar.Standard
import Recurrence.Proofs.Expression.Rendering
import Recurrence.Proofs.Search.LatestDate

/-!
# The search for a date runs into nothing

Two steps of the search for a date could go wrong: a set could be asked for its members in a range that is reversed, and a
year, a month and a day could be tried that are no date. `Expression.checkedDate?` is the search with both steps as they are,
over the dates of the standard library; either fault ends it. No search ends so, and what it finds is what
`Expression.latestDate?` finds (`agrees_checkedDate?`), because the years, months and days that it may go through are
exactly the dates up to the given one (`le_last_iff`).
-/

namespace Recurrence

open Std.Time LatestDateAux

/-! ### The search and its faults -/

/-- What a search for a date may run into. -/
inductive DateFault where
  /-- A set is asked for its members from a number up to a lower one. -/
  | reversedRange (low high : Nat)
  /-- A day is tried that the calendar does not have. -/
  | noSuchDate (d : Date)
  deriving DecidableEq, Repr

/-- The members of a set from `low` up to `high`, in ascending order. -/
def ValueSet.range (s : ValueSet) (low high : Nat) : Except DateFault (List Nat) :=
  if low ≤ high then .ok (s.toList.filter fun n => low ≤ n && n ≤ high) else .error (.reversedRange low high)

/-- The members of a set from `high` down to `low`. The set is asked only where they are a range. -/
def ValueSet.descending (s : ValueSet) (low high : Nat) : Except DateFault (List Nat) :=
  if low ≤ high then (s.range low high).map List.reverse else .ok []

namespace Expression

/-- A day is tried: its date must be in the calendar, and is found when its day of the week is picked. -/
def tryDay (e : Expression) (year month day : Nat) : Except DateFault (Option PlainDate) :=
  match Date.plain? ⟨year, month, day⟩ with
  | some p => .ok (if p.weekday.toNat % 7 ∈ e.dayOfWeek then some p else none)
  | none => .error (.noSuchDate ⟨year, month, day⟩)

/-- The days of a month are tried, the last first. -/
def tryMonth (e : Expression) (upTo : Date) (year month : Nat) : Except DateFault (Option PlainDate) := do
  let days ← e.dayOfMonth.descending 1 (lastDay upTo year month)
  days.findSomeM? (e.tryDay year month)

/-- The months of a year are tried, the last first. -/
def tryYear (e : Expression) (upTo : Date) (year : Nat) : Except DateFault (Option PlainDate) := do
  let months ← e.month.descending 1 (lastMonth upTo year)
  months.findSomeM? (e.tryMonth upTo year)

/-- The latest date up to `upTo` that an expression picks, or the fault that the search for it runs into. A negative year has
no search. -/
def checkedDate? (e : Expression) (upTo : PlainDate) : Except DateFault (Option PlainDate) :=
  if upTo.year.toInt < 0 then .ok none
  else do
    let years ← e.year.descending Field.year.min upTo.year.toInt.toNat
    years.findSomeM? (e.tryYear (Date.ofPlain upTo))

/-- An expression picks a date of the standard library from 1970 on whose year, month, day of the month and day of the week,
counted from Sunday, are in its sets. -/
def PicksDate (e : Expression) (p : PlainDate) : Prop :=
  1970 ≤ p.year.toInt ∧ p.year.toInt.toNat ∈ e.values .year ∧ p.month.val.toNat ∈ e.values .month ∧
    p.day.val.toNat ∈ e.values .dayOfMonth ∧ p.weekday.toNat % 7 ∈ e.values .dayOfWeek

end Expression

/-! ### Steps that do not fail -/

namespace CheckedDateAux

variable {e : Expression} {upTo : PlainDate}

/-- A set is never asked for a reversed range. -/
theorem descending_eq (s : ValueSet) (low high : Nat) : s.descending low high = .ok (s.downFrom high low) := by
  unfold ValueSet.descending
  split
  · next h =>
    rw [ValueSet.range, if_pos h]
    rfl
  · next h =>
    have hnone : ∀ n ∈ s.toList, ¬(low ≤ n && n ≤ high) = true := by
      intro n _
      simp only [Bool.and_eq_true, decide_eq_true_eq]
      omega
    rw [ValueSet.downFrom, List.filter_eq_nil_iff.mpr hnone]
    rfl

/-- A search that may fail agrees with one that cannot: it does not fail, and its answer is the same date. -/
def Agrees (found : Except DateFault (Option PlainDate)) (answer : Option Date) : Prop :=
  ∃ p, found = .ok p ∧ p.map Date.ofPlain = answer

/-- A search through values agrees if the search for each value does. -/
theorem Agrees.findSomeM? {values : List Nat} {search : Nat → Except DateFault (Option PlainDate)}
    {search' : Nat → Option Date} (h : ∀ n ∈ values, Agrees (search n) (search' n)) :
    Agrees (values.findSomeM? search) (values.findSome? search') := by
  induction values with
  | nil => exact ⟨none, rfl, rfl⟩
  | cons n values ih =>
    obtain ⟨p, hp, hanswer⟩ := h n List.mem_cons_self
    rw [List.findSomeM?_cons, List.findSome?_cons, hp, ← hanswer]
    cases p with
    | some p => exact ⟨some p, rfl, rfl⟩
    | none => exact ih fun m hm => h m (List.mem_cons_of_mem _ hm)

/-- A search through the members of a set in a range agrees if the search for each of them does. -/
theorem Agrees.descending {s : ValueSet} {low high : Nat} {search : Nat → Except DateFault (Option PlainDate)}
    {search' : Nat → Option Date} (h : ∀ n ∈ s.downFrom high low, Agrees (search n) (search' n)) :
    Agrees (s.descending low high >>= fun values => values.findSomeM? search)
      ((s.downFrom high low).findSome? search') := by
  rw [descending_eq]
  exact Agrees.findSomeM? h

/-- A day that is a date of the covered years is tried without a fault. -/
theorem agrees_tryDay {year month day : Nat} (hreal : Date.IsReal ⟨year, month, day⟩) (hcovered : year ≤ 262142) :
    Agrees (e.tryDay year month day)
      (Option.guard (fun d => decide (d.weekday ∈ e.dayOfWeek)) (Date.mk year month day)) := by
  have hyear : (-262143 : Int) ≤ (year : Int) ∧ (year : Int) ≤ 262142 := by omega
  obtain ⟨p, hplain, hp⟩ := Date.exists_plain?_eq hreal hyear
  have htry : e.tryDay year month day = .ok (if p.weekday.toNat % 7 ∈ e.dayOfWeek then some p else none) := by
    rw [Expression.tryDay, hplain]
  refine ⟨_, htry, ?_⟩
  rw [← hp, Option.guard, Date.weekday_ofPlain]
  by_cases hweekday : p.weekday.toNat % 7 ∈ e.dayOfWeek
  · rw [if_pos hweekday, if_pos (decide_eq_true hweekday)]
    rfl
  · rw [if_neg hweekday, if_neg (by simpa using hweekday)]
    rfl

/-- The days of a month that is left are tried without a fault. -/
theorem agrees_tryMonth {year month : Nat} (hcovered : year ≤ 262142) (h1 : 1 ≤ month)
    (hmonth : month ≤ lastMonth (Date.ofPlain upTo) year) :
    Agrees (e.tryMonth (Date.ofPlain upTo) year month) (searchDay e (Date.ofPlain upTo) year month) := by
  rw [Expression.tryMonth, searchDay, List.find?_eq_findSome?_guard, List.findSome?_map]
  refine Agrees.descending fun day hday => ?_
  obtain ⟨-, hfirst, hlast⟩ := ValueSet.mem_downFrom.mp hday
  exact agrees_tryDay (isReal_of_le_last (Date.isReal_ofPlain upTo) h1 hmonth hfirst hlast) hcovered

/-- The months of a covered year are tried without a fault. -/
theorem agrees_tryYear {year : Nat} (hcovered : year ≤ 262142) :
    Agrees (e.tryYear (Date.ofPlain upTo) year) (searchMonth e (Date.ofPlain upTo) year) := by
  rw [Expression.tryYear, searchMonth]
  refine Agrees.descending fun month hmonth => ?_
  obtain ⟨-, h1, hlast⟩ := ValueSet.mem_downFrom.mp hmonth
  exact agrees_tryMonth hcovered h1 hlast

/-- The search runs into nothing, when all years that it may go through are covered. -/
theorem agrees_checkedDate? (upTo : PlainDate) (hcovered : ∀ year ∈ e.year, year ≤ 262142) :
    Agrees (e.checkedDate? upTo) (e.latestDate? (Date.ofPlain upTo)) := by
  have hlast : (Date.ofPlain upTo).year.toNat = upTo.year.toInt.toNat := rfl
  rw [latestDate?_eq, hlast, Expression.checkedDate?]
  split
  · next hnegative =>
    have hyears : e.year.downFrom upTo.year.toInt.toNat Field.year.min = [] := by
      refine List.eq_nil_iff_forall_not_mem.mpr fun year hyear => ?_
      obtain ⟨-, hfloor, hle⟩ := ValueSet.mem_downFrom.mp hyear
      have hmin : Field.year.min = 1970 := rfl
      omega
    rw [hyears]
    exact ⟨none, rfl, rfl⟩
  · refine Agrees.descending fun year hyear => ?_
    exact agrees_tryYear (hcovered year (ValueSet.mem_downFrom.mp hyear).1)

/-! ### Dates that are gone through -/

/-- The years, months and days within the bounds of the search are exactly the dates up to the given one. -/
theorem le_last_iff (upTo : PlainDate) (year month day : Nat) :
    ((year : Int) ≤ upTo.year.toInt ∧ (1 ≤ month ∧ month ≤ lastMonth (Date.ofPlain upTo) year) ∧
        1 ≤ day ∧ day ≤ lastDay (Date.ofPlain upTo) year month) ↔
      ∃ p, Date.ofPlain p = ⟨year, month, day⟩ ∧ p.toEpochDay ≤ upTo.toEpochDay := by
  have hup := Date.isReal_ofPlain upTo
  have hle : ∀ p, p.toEpochDay ≤ upTo.toEpochDay ↔ (Date.ofPlain p).toDays ≤ (Date.ofPlain upTo).toDays := by
    intro p
    rw [Date.toDays_ofPlain, Date.toDays_ofPlain]
    rfl
  constructor
  · rintro ⟨hyear, ⟨h1, hmonth⟩, hfirst, hday⟩
    have hreal := isReal_of_le_last hup h1 hmonth hfirst hday
    obtain ⟨p, hp⟩ := (Date.exists_ofPlain_iff _).mpr hreal
    refine ⟨p, hp, ?_⟩
    rw [hle, hp]
    exact (toDays_le_iff_of_year_eq hup hreal rfl hyear).mpr ⟨hmonth, hday⟩
  · rintro ⟨p, hp, hbefore⟩
    have hreal : Date.IsReal ⟨year, month, day⟩ := hp ▸ Date.isReal_ofPlain p
    rw [hle, hp] at hbefore
    have hyear : (year : Int) ≤ upTo.year.toInt := by
      by_contra hlater
      have hlt := Date.toDays_lt_of_year_lt hup hreal (Int.not_le.mp hlater)
      omega
    obtain ⟨hmonth, hday⟩ := (toDays_le_iff_of_year_eq hup hreal rfl hyear).mp hbefore
    exact ⟨hyear, ⟨hreal.1, hmonth⟩, hreal.2.2.1, hday⟩

end CheckedDateAux

open CheckedDateAux

/-- A date of the standard library is picked up to another exactly if its date here is. -/
theorem Expression.picksDate_iff (e : Expression) (upTo p : PlainDate) :
    e.PicksDate p ∧ p.toEpochDay ≤ upTo.toEpochDay ↔ e.OnDateUpTo (Date.ofPlain upTo) (Date.ofPlain p) := by
  have hon : e.PicksDate p ↔ e.OnDate (Date.ofPlain p) := by
    rw [PicksDate, OnDate, Date.weekday_ofPlain]
    rfl
  rw [OnDateUpTo, hon, Date.toDays_ofPlain, Date.toDays_ofPlain]
  exact ⟨fun ⟨h, hle⟩ => ⟨Date.isReal_ofPlain p, h, hle⟩, fun ⟨_, h, hle⟩ => ⟨h, hle⟩⟩

/-- The search with its checks finds the latest date that is picked, when all years that it may go through are covered. -/
theorem Expression.exists_checkedDate?_eq {e : Expression} (upTo : PlainDate) (hcovered : ∀ year ∈ e.year, year ≤ 262142) :
    ∃ answer : Option PlainDate, e.checkedDate? upTo = .ok answer ∧
      e.latestDate? (Date.ofPlain upTo) = answer.map Date.ofPlain ∧
      IsLatest (fun p => e.PicksDate p ∧ p.toEpochDay ≤ upTo.toEpochDay) (fun p => p.toEpochDay.val) answer ∧
      (answer = none ↔ ¬∃ p, e.PicksDate p ∧ p.toEpochDay ≤ upTo.toEpochDay) := by
  obtain ⟨answer, hfound, hanswer⟩ := agrees_checkedDate? upTo hcovered
  have hdates := e.isLatest_latestDate? (Date.isReal_ofPlain upTo)
  rw [← hanswer] at hdates
  have hlatest := hdates.of_map (e.picksDate_iff upTo) Date.toDays_ofPlain
  refine ⟨answer, hfound, hanswer.symm, hlatest, ?_⟩
  rw [hlatest.eq_none_iff, not_exists]

/-- The search for a date is exact and runs into nothing, for the expression that any text stands for and every date of any
year to search up to.
1. The search with its checks does not fail, and finds what the search without them finds: the latest date up to the given
   one whose year is from 1970 on and whose year, month, day and day of the week are in their sets, or nothing exactly if
   there is no such date.
2. The months have the lengths that they have in the calendar of the standard library.
3. The years, months and days within the bounds of the search are exactly the dates up to the given one, so no date is left
   out of a month that is searched, and nothing else is tried. -/
theorem Expression.read_latestDate?_exact (text : String) (upTo : PlainDate) :
    (∃ answer : Option PlainDate,
      (read text).checkedDate? upTo = .ok answer ∧
      (read text).latestDate? (Date.ofPlain upTo) = answer.map Date.ofPlain ∧
      IsLatest (fun p => (read text).PicksDate p ∧ p.toEpochDay ≤ upTo.toEpochDay) (fun p => p.toEpochDay.val) answer ∧
      (answer = none ↔ ¬∃ p, (read text).PicksDate p ∧ p.toEpochDay ≤ upTo.toEpochDay)) ∧
    (∀ (year : Year.Offset) (month : Month.Ordinal),
      (monthLength (isLeapYear year.toInt) month.val.toNat : Int) = (month.days year.isLeap).val) ∧
    ∀ year month day : Nat,
      ((year : Int) ≤ upTo.year.toInt ∧ (1 ≤ month ∧ month ≤ lastMonth (Date.ofPlain upTo) year) ∧
          1 ≤ day ∧ day ≤ lastDay (Date.ofPlain upTo) year month) ↔
        ∃ p, Date.ofPlain p = ⟨year, month, day⟩ ∧ p.toEpochDay ≤ upTo.toEpochDay := by
  have hcovered : ∀ year ∈ (read text).year, year ≤ 262142 := by
    intro year hyear
    exact Nat.le_trans ((isNormal_values_read text .year).le_greatest year hyear) (by decide)
  refine ⟨exists_checkedDate?_eq upTo hcovered, ?_, le_last_iff upTo⟩
  intro year month
  rw [isLeapYear_toInt]
  exact monthLength_eq_days year.isLeap month

end Recurrence
