import Recurrence.Proofs.Calendar
import Recurrence.Proofs.Search.Latest
import Recurrence.Search.LatestDate

/-!
# The latest date is found

`Expression.latestDate?` goes down through years, months and days of the month. The dates that it looks for are cut into
slices accordingly: those of a year, those of a month in it, and single days. The bounds that hold in the first year and in
the first month are what `upTo` leaves of these slices (`LatestDateAux.toDays_le_iff_of_year_eq`), so no date of a slice is
left out and none after `upTo` is taken.
-/

namespace Recurrence

/-- The dates of the calendar up to a given one that an expression picks. -/
def Expression.OnDateUpTo (e : Expression) (upTo d : Date) : Prop :=
  d.IsReal ∧ e.OnDate d ∧ d.toDays ≤ upTo.toDays

namespace LatestDateAux

variable {e : Expression} {upTo : Date}

/-- The last month that is left in a year, when the months after the one of `upTo` are cut off. -/
def lastMonth (upTo : Date) (year : Nat) : Nat :=
  if (year : Int) = upTo.year then upTo.month else 12

/-- The last day that is left in a month, when the days after `upTo` are cut off. -/
def lastDay (upTo : Date) (year month : Nat) : Nat :=
  if (year : Int) = upTo.year ∧ month = upTo.month then min upTo.day (monthLength (isLeapYear year) month)
  else monthLength (isLeapYear year) month

/-- The search for a day of a month. -/
def searchDay (e : Expression) (upTo : Date) (year month : Nat) : Option Date :=
  ((e.dayOfMonth.downFrom (lastDay upTo year month) 1).map (Date.mk year month)).find? fun d => d.weekday ∈ e.dayOfWeek

/-- The search for a month of a year. -/
def searchMonth (e : Expression) (upTo : Date) (year : Nat) : Option Date :=
  (e.month.downFrom (lastMonth upTo year) 1).findSome? (searchDay e upTo year)

/-- The whole search goes through the years. -/
theorem latestDate?_eq (e : Expression) (upTo : Date) :
    e.latestDate? upTo = (e.year.downFrom upTo.year.toNat Field.year.min).findSome? (searchMonth e upTo) :=
  rfl

/-- No month is after the twelfth. -/
theorem lastMonth_le (hup : upTo.IsReal) (year : Nat) : lastMonth upTo year ≤ 12 := by
  simp only [lastMonth]
  split
  · exact hup.2.1
  · exact Nat.le_refl _

/-- No day is after the last one of its month. -/
theorem lastDay_le (upTo : Date) (year month : Nat) : lastDay upTo year month ≤ monthLength (isLeapYear year) month := by
  simp only [lastDay]
  split
  · exact Nat.min_le_right _ _
  · exact Nat.le_refl _

/-- The days that are left in the months that are left are dates of the calendar. -/
theorem isReal_of_le_last (hup : upTo.IsReal) {year month day : Nat} (h1 : 1 ≤ month) (hmonth : month ≤ lastMonth upTo year)
    (hfirst : 1 ≤ day) (hday : day ≤ lastDay upTo year month) : Date.IsReal ⟨year, month, day⟩ :=
  ⟨h1, Nat.le_trans hmonth (lastMonth_le hup year), hfirst, Nat.le_trans hday (lastDay_le upTo year month)⟩

/-- A date of a month that the year has left is up to `upTo` exactly if its day is left in the month. -/
theorem toDays_le_iff_of_year_eq {d : Date} {year : Nat} (hup : upTo.IsReal) (h : d.IsReal) (hy : d.year = year)
    (hle : (year : Int) ≤ upTo.year) :
    d.toDays ≤ upTo.toDays ↔ d.month ≤ lastMonth upTo year ∧ d.day ≤ lastDay upTo year d.month := by
  rw [Date.toDays_le_toDays_iff h hup]
  obtain ⟨-, h12, -, hlen⟩ := h
  rw [hy] at hlen
  simp only [Date.Before, lastMonth, lastDay]
  split <;> split <;> omega

/-- The days of a month are searched for the latest one that is picked. -/
theorem isLatest_searchDay (hup : upTo.IsReal) {year month : Nat} (hy : year ∈ e.year) (h1970 : 1970 ≤ year)
    (hle : (year : Int) ≤ upTo.year) (hm : month ∈ e.month) (h1 : 1 ≤ month) (hlast : month ≤ lastMonth upTo year) :
    IsLatest (fun d : Date => d.month = month ∧ d.year = year ∧ e.OnDateUpTo upTo d) Date.toDays
      (searchDay e upTo year month) := by
  have hdays : IsLatest
      (fun d : Date => ∃ day ∈ e.dayOfMonth.downFrom (lastDay upTo year month) 1, d = ⟨year, month, day⟩ ∧
        d.weekday ∈ e.dayOfWeek) Date.toDays (searchDay e upTo year month) := by
    unfold searchDay
    rw [List.find?_eq_findSome?_guard, List.findSome?_map]
    refine IsLatest.findSome? (ValueSet.pairwise_downFrom _ _ _) ?_ ?_
    · intro day _
      exact IsLatest.guard (fun d => d.weekday ∈ e.dayOfWeek) Date.toDays ⟨year, month, day⟩
    · intro day day' d d' hlt h1 h2
      obtain ⟨rfl, -⟩ := h1
      obtain ⟨rfl, -⟩ := h2
      simp only [Date.toDays]
      omega
  refine hdays.congr fun d => ?_
  constructor
  · intro h
    obtain ⟨day, hday, rfl, hw⟩ := h
    obtain ⟨hmem, hge, hle'⟩ := ValueSet.mem_downFrom.mp hday
    have hreal := isReal_of_le_last hup h1 hlast hge hle'
    refine ⟨rfl, rfl, hreal, ⟨?_, hy, hm, hmem, hw⟩, ?_⟩
    · exact Int.ofNat_le.mpr h1970
    · exact (toDays_le_iff_of_year_eq hup hreal rfl hle).mpr ⟨hlast, hle'⟩
  · intro h
    obtain ⟨rfl, hyear, hreal, ⟨-, -, -, hday, hw⟩, hupTo⟩ := h
    have hbound := (toDays_le_iff_of_year_eq hup hreal hyear hle).mp hupTo
    refine ⟨d.day, ValueSet.mem_downFrom.mpr ⟨hday, hreal.2.2.1, hbound.2⟩, ?_, hw⟩
    rw [← hyear]

/-- The months of a year are searched for the latest date that is picked. -/
theorem isLatest_searchMonth (hup : upTo.IsReal) {year : Nat} (hy : year ∈ e.year) (h1970 : 1970 ≤ year)
    (hle : (year : Int) ≤ upTo.year) :
    IsLatest (fun d : Date => d.year = year ∧ e.OnDateUpTo upTo d) Date.toDays (searchMonth e upTo year) := by
  have hmonths : IsLatest
      (fun d : Date => ∃ month ∈ e.month.downFrom (lastMonth upTo year) 1, d.month = month ∧ d.year = year ∧
        e.OnDateUpTo upTo d) Date.toDays (searchMonth e upTo year) := by
    refine IsLatest.findSome? (ValueSet.pairwise_downFrom _ _ _) ?_ ?_
    · intro month hmonth
      obtain ⟨hm, h1, hlast⟩ := ValueSet.mem_downFrom.mp hmonth
      exact isLatest_searchDay hup hy h1970 hle hm h1 hlast
    · intro month month' d d' hlt h1 h2
      obtain ⟨rfl, hyear, hd⟩ := h1
      obtain ⟨rfl, hyear', hd'⟩ := h2
      exact Int.le_of_lt (Date.toDays_lt_toDays hd.1 hd'.1 (Or.inr ⟨hyear.trans hyear'.symm, Or.inl hlt⟩))
  refine hmonths.congr fun d => ⟨?_, ?_⟩
  · intro h
    obtain ⟨month, -, -, hd⟩ := h
    exact hd
  · intro h
    obtain ⟨hyear, hd⟩ := h
    have hbound := (toDays_le_iff_of_year_eq hup hd.1 hyear hle).mp hd.2.2
    exact ⟨d.month, ValueSet.mem_downFrom.mpr ⟨hd.2.1.2.2.1, hd.1.1, hbound.1⟩, rfl, hyear, hd⟩

end LatestDateAux

open LatestDateAux

/-- The search answers with the latest date up to `upTo` that an expression picks, and with nothing exactly if it picks
none, whatever values the sets hold. -/
theorem Expression.isLatest_latestDate? (e : Expression) {upTo : Date} (hup : upTo.IsReal) :
    IsLatest (e.OnDateUpTo upTo) Date.toDays (e.latestDate? upTo) := by
  have hyears : IsLatest
      (fun d : Date => ∃ year ∈ e.year.downFrom upTo.year.toNat Field.year.min, d.year = year ∧ e.OnDateUpTo upTo d)
      Date.toDays (e.latestDate? upTo) := by
    rw [latestDate?_eq]
    refine IsLatest.findSome? (ValueSet.pairwise_downFrom _ _ _) ?_ ?_
    · intro year hyear
      obtain ⟨hy, h1970, hle⟩ := ValueSet.mem_downFrom.mp hyear
      have hfloor : 1970 ≤ year := h1970
      exact isLatest_searchMonth hup hy hfloor (by omega)
    · intro year year' d d' hlt h1 h2
      obtain ⟨hy, hd⟩ := h1
      obtain ⟨hy', hd'⟩ := h2
      exact Int.le_of_lt (Date.toDays_lt_of_year_lt hd.1 hd'.1 (by omega))
  refine hyears.congr fun d => ⟨?_, ?_⟩
  · intro h
    obtain ⟨year, -, -, hd⟩ := h
    exact hd
  · intro hd
    have hfloor : (1970 : Int) ≤ d.year := hd.2.1.1
    have hle : d.year ≤ upTo.year := by
      rcases Int.lt_or_le upTo.year d.year with hlt | hle
      · have := Date.toDays_lt_of_year_lt hup hd.1 hlt
        have := hd.2.2
        omega
      · exact hle
    refine ⟨d.year.toNat, ValueSet.mem_downFrom.mpr ⟨hd.2.1.2.1, ?_, by omega⟩, by omega, hd⟩
    show 1970 ≤ d.year.toNat
    omega

end Recurrence
