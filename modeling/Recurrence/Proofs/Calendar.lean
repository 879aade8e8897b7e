import Recurrence.Calendar.Lemmas

/-!
# Order in the calendar

Dates, moments and instants are ordered alike: a date read year first, a moment by its date and then by its time, an instant
by its number. The years from 1970 on have the instants from 0 on, and the covered instants are those of the covered years.
-/

namespace Recurrence

namespace Date

/-- Of two dates, one has at most the number of the other exactly if the other is not before it. -/
theorem toDays_le_toDays_iff {d d' : Date} (h : d.IsReal) (h' : d'.IsReal) :
    d.toDays ≤ d'.toDays ↔ ¬d'.Before d := by
  constructor
  · intro hle hb
    exact absurd hle (Int.not_le.mpr (toDays_lt_toDays h' h hb))
  · intro hn
    rcases before_trichotomy d d' with hb | rfl | hb
    · exact Int.le_of_lt (toDays_lt_toDays h h' hb)
    · exact Int.le_refl _
    · exact absurd hb hn

/-- A date of a lower year has a lower number. -/
theorem toDays_lt_of_year_lt {d d' : Date} (h : d.IsReal) (h' : d'.IsReal) (hy : d.year < d'.year) :
    d.toDays < d'.toDays :=
  toDays_lt_toDays h h' (Or.inl hy)

/-- A date of a year has at least the number of the first day of a year that is not later. -/
theorem daysBeforeYear_le_toDays {d : Date} (h : d.IsReal) {year : Int} (hy : year ≤ d.year) :
    daysBeforeYear year ≤ d.toDays := by
  have hmem := toDays_mem_year h
  rcases Int.lt_or_eq_of_le hy with hlt | rfl
  · have := daysBeforeYear_le hlt
    omega
  · exact hmem.1

/-- A date of a year has a lower number than the first day of a later year. -/
theorem toDays_lt_daysBeforeYear {d : Date} (h : d.IsReal) {year : Int} (hy : d.year < year) :
    d.toDays < daysBeforeYear year := by
  have hmem := toDays_mem_year h
  have := daysBeforeYear_le hy
  omega

/-- A year is reached exactly by the dates whose number is not below that of its first day. -/
theorem le_year_iff {d : Date} (h : d.IsReal) {year : Int} : year ≤ d.year ↔ daysBeforeYear year ≤ d.toDays := by
  constructor
  · exact daysBeforeYear_le_toDays h
  · intro hle
    rcases Int.lt_or_le d.year year with hlt | hle'
    · have := toDays_lt_daysBeforeYear h hlt
      omega
    · exact hle'

end Date

namespace TimeOfDay

/-- A time of the clock lies within a day. -/
theorem toSeconds_lt {t : TimeOfDay} (h : t.IsReal) : t.toSeconds < 86400 := by
  obtain ⟨h1, h2, h3⟩ := h
  simp only [toSeconds]
  omega

/-- A time of the clock is found again from its seconds. -/
theorem ofSeconds_toSeconds {t : TimeOfDay} (h : t.IsReal) : ofSeconds t.toSeconds = t := by
  obtain ⟨hour, minute, second⟩ := t
  obtain ⟨h1, h2, h3⟩ := h
  simp only at h1 h2 h3
  simp only [ofSeconds, toSeconds, mk.injEq]
  omega

end TimeOfDay

namespace Moment

/-- Of two moments, the one on the earlier date begins earlier. -/
theorem toMillis_lt_of_toDays_lt {m m' : Moment} (h : m.IsReal) (hd : m.date.toDays < m'.date.toDays) :
    m.toMillis < m'.toMillis := by
  have := TimeOfDay.toSeconds_lt h.2
  simp only [toMillis]
  omega

/-- The date of an instant has the number of its whole days. -/
theorem toDays_date_ofMillis (t : Int) : (ofMillis t).date.toDays = t / 1000 / 86400 :=
  Date.toDays_ofDays _

/-- A year is reached exactly by the instants from the first of it on. -/
theorem le_year_ofMillis_iff {year : Int} (t : Int) :
    year ≤ (ofMillis t).date.year ↔ 86400000 * daysBeforeYear year ≤ t := by
  rw [Date.le_year_iff (isReal_ofMillis t).1, toDays_date_ofMillis]
  omega

end Moment

/-- The calendar covers exactly the instants of the years from -262143 to 262142. -/
theorem inCalendar_iff_year (t : Int) :
    InCalendar t ↔ -262143 ≤ (Moment.ofMillis t).date.year ∧ (Moment.ofMillis t).date.year ≤ 262142 := by
  have hlast : (Moment.ofMillis t).date.year ≤ 262142 ↔ ¬(262143 : Int) ≤ (Moment.ofMillis t).date.year := by omega
  rw [hlast, Moment.le_year_ofMillis_iff, Moment.le_year_ofMillis_iff]
  have hfirst : 86400000 * daysBeforeYear (-262143) = -8334601228800000 := by decide
  have hnext : 86400000 * daysBeforeYear 262143 = 8210266876800000 := by decide
  rw [hfirst, hnext]
  simp only [InCalendar]
  omega

end Recurrence
