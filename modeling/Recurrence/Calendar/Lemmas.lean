import Recurrence.Calendar.Moment

/-!
# Calendar: numbering and order

The numbering of dates is sound in both directions: every number of days is the number of exactly one date of the calendar
(`Date.toDays_ofDays`, `Date.isReal_ofDays`, `Date.ofDays_toDays`), and a later date, read year first, has a greater
number (`Date.toDays_lt_toDays`). The same holds of moments and instants.
-/

namespace Recurrence

/-! ### Years and months -/

/-- The length of a year. -/
def yearLength (leap : Bool) : Nat :=
  if leap then 366 else 365

/-- A year has 366 days if it is a leap year, and 365 otherwise. -/
theorem yearLength_cases (year : Int) :
    (yearLength (isLeapYear year) = 366 ∧ year % 4 = 0 ∧ (year % 100 ≠ 0 ∨ year % 400 = 0)) ∨
      (yearLength (isLeapYear year) = 365 ∧ ¬(year % 4 = 0 ∧ (year % 100 ≠ 0 ∨ year % 400 = 0))) := by
  have hiff : isLeapYear year = true ↔ year % 4 = 0 ∧ (year % 100 ≠ 0 ∨ year % 400 = 0) := by simp [isLeapYear]
  by_cases h : isLeapYear year = true
  · exact Or.inl ⟨by rw [h]; rfl, hiff.mp h⟩
  · exact Or.inr ⟨by rw [Bool.eq_false_iff.mpr h]; rfl, mt hiff.mpr h⟩

/-- The days before the next year are those before a year and those in it. -/
theorem daysBeforeYear_succ (year : Int) :
    daysBeforeYear (year + 1) = daysBeforeYear year + yearLength (isLeapYear year) := by
  simp only [daysBeforeYear]
  rcases yearLength_cases year with ⟨hl, h⟩ | ⟨hl, h⟩ <;> rw [hl] <;> omega

/-- The days before a later year are at least those before a year and those in it. -/
theorem daysBeforeYear_le {year year' : Int} (h : year < year') :
    daysBeforeYear year + yearLength (isLeapYear year) ≤ daysBeforeYear year' := by
  obtain ⟨n, hn⟩ : ∃ n : Nat, year' = year + 1 + n := ⟨(year' - year - 1).toNat, by omega⟩
  subst hn
  rw [← daysBeforeYear_succ]
  clear h
  induction n with
  | zero => simp
  | succ n ih =>
    have := daysBeforeYear_succ (year + 1 + n)
    have : year + 1 + ((n + 1 : Nat) : Int) = year + 1 + n + 1 := by omega
    rw [this]
    omega

namespace MonthAux

/-- The days before a later month are at least those before a month and those in it. -/
theorem daysBeforeMonth_le : ∀ leap : Bool, ∀ m' : Nat, m' < 13 → ∀ m : Nat, m < m' → 1 ≤ m →
    daysBeforeMonth leap m + monthLength leap m ≤ daysBeforeMonth leap m' := by
  intro leap m' hm' m hlt hm
  induction m' with
  | zero => omega
  | succ m' ih =>
    have hnext := daysBeforeMonth_succ leap (by omega : 1 ≤ m') (by omega)
    rcases Nat.lt_or_eq_of_le (Nat.le_of_lt_succ hlt) with hlt | rfl
    · have hle := ih (by omega) hlt
      omega
    · exact Nat.le_of_eq hnext.symm

/-- A month ends within its year. -/
theorem daysBeforeMonth_add_le : ∀ leap : Bool, ∀ m : Nat, m < 13 → 1 ≤ m →
    daysBeforeMonth leap m + monthLength leap m ≤ yearLength leap := by
  decide

/-- The month found for a day of a year is a month, and the day lies in it. -/
theorem month_of_dayOfYear : ∀ leap : Bool, ∀ n : Nat, n < 366 → n < yearLength leap →
    let m := (List.range' 1 12).countP (fun m => daysBeforeMonth leap m ≤ n)
    1 ≤ m ∧ m ≤ 12 ∧ daysBeforeMonth leap m ≤ n ∧ n < daysBeforeMonth leap m + monthLength leap m := by
  decide +kernel

end MonthAux

/-! ### Dates -/

namespace Date

/-- A day of a year is a date of that year, with the number of the year's first day and as many days more. -/
theorem ofDayOfYear_spec {year : Int} {n : Nat} (h : n < yearLength (isLeapYear year)) :
    (ofDayOfYear year n).IsReal ∧ (ofDayOfYear year n).toDays = daysBeforeYear year + n := by
  have hn : n < 366 := by
    simp only [yearLength] at h
    split at h <;> omega
  obtain ⟨h1, h2, h3, h4⟩ := MonthAux.month_of_dayOfYear (isLeapYear year) n hn h
  refine ⟨⟨h1, h2, ?_, ?_⟩, ?_⟩
  · simp only [ofDayOfYear]
    omega
  · simp only [ofDayOfYear]
    omega
  · simp only [ofDayOfYear, toDays]
    omega

/-- The date of a number of days is in the calendar, and has that number. -/
theorem ofDays_spec (n : Int) : (ofDays n).IsReal ∧ (ofDays n).toDays = n := by
  simp only [ofDays]
  generalize hq : (n + 719162) / 146097 = q
  generalize hr : (n + 719162) % 146097 = r
  generalize hc : min (r / 36524) 3 = c
  generalize hr2 : r - 36524 * c = r2
  generalize hf : r2 / 1461 = f
  generalize hr3 : r2 % 1461 = r3
  generalize ho : min (r3 / 365) 3 = o
  have hc3 : 0 ≤ c ∧ c ≤ 3 := by omega
  have hr2' : 0 ≤ r2 ∧ r2 ≤ 36524 ∧ (r2 = 36524 → c = 3) := by omega
  have hf24 : 0 ≤ f ∧ f ≤ 24 := by omega
  have ho3 : 0 ≤ o ∧ o ≤ 3 := by omega
  have hday : 0 ≤ r3 - 365 * o ∧ r3 - 365 * o ≤ 365 ∧ (r3 - 365 * o = 365 → o = 3 ∧ (f = 24 → c = 3)) := by omega
  generalize hy : 400 * q + 100 * c + 4 * f + o + 1 = year
  have hdays : n = daysBeforeYear year + (r3 - 365 * o) := by
    have h4 : (year - 1) / 4 = 100 * q + 25 * c + f := by omega
    have h100 : (year - 1) / 100 = 4 * q + c := by omega
    have h400 : (year - 1) / 400 = q := by omega
    rw [daysBeforeYear, h4, h100, h400]
    omega
  have hlength : (r3 - 365 * o).toNat < yearLength (isLeapYear year) := by
    obtain ⟨-, hle, hlast⟩ := hday
    by_cases h365 : r3 - 365 * o = 365
    · obtain ⟨rfl, hf⟩ := hlast h365
      have h4 : year % 4 = 0 := by omega
      have h100 : year % 100 ≠ 0 ∨ year % 400 = 0 := by
        by_cases h24 : f = 24
        · right
          have := hf h24
          subst hy this h24
          omega
        · left
          have : 0 < 4 * f + 4 ∧ 4 * f + 4 < 100 := by omega
          clear hdays hf hlast h365 hle
          omega
      rcases yearLength_cases year with ⟨hl, -⟩ | ⟨-, h⟩
      · rw [hl, h365]
        decide
      · exact absurd ⟨h4, h100⟩ h
    · have h365' : (r3 - 365 * o).toNat < 365 := by omega
      rcases yearLength_cases year with ⟨hl, -⟩ | ⟨hl, -⟩ <;> rw [hl]
      · exact Nat.lt_trans h365' (by decide)
      · exact h365'
  obtain ⟨h1, h2⟩ := ofDayOfYear_spec hlength
  exact ⟨h1, by rw [h2]; omega⟩

/-- The date of a number of days is in the calendar. -/
theorem isReal_ofDays (n : Int) : (ofDays n).IsReal :=
  (ofDays_spec n).1

/-- The date of a number of days has that number. -/
@[simp] theorem toDays_ofDays (n : Int) : (ofDays n).toDays = n :=
  (ofDays_spec n).2

/-- The number of a date lies within its year. -/
theorem toDays_mem_year {d : Date} (h : d.IsReal) :
    daysBeforeYear d.year ≤ d.toDays ∧ d.toDays < daysBeforeYear d.year + yearLength (isLeapYear d.year) := by
  obtain ⟨h1, h2, h3, h4⟩ := h
  have := MonthAux.daysBeforeMonth_add_le (isLeapYear d.year) d.month (by omega) h1
  simp only [toDays]
  omega

/-- One date is before another when its year is lower, or the month in the same year, or the day in the same month. -/
def Before (d d' : Date) : Prop :=
  d.year < d'.year ∨ (d.year = d'.year ∧ (d.month < d'.month ∨ (d.month = d'.month ∧ d.day < d'.day)))

instance (d d' : Date) : Decidable (d.Before d') :=
  inferInstanceAs (Decidable (_ ∨ _))

/-- A date before another has a lower number. -/
theorem toDays_lt_toDays {d d' : Date} (h : d.IsReal) (h' : d'.IsReal) (hb : d.Before d') : d.toDays < d'.toDays := by
  rcases hb with hy | ⟨hy, hm | ⟨hm, hd⟩⟩
  · have := toDays_mem_year h
    have := toDays_mem_year h'
    have := daysBeforeYear_le hy
    omega
  · have := MonthAux.daysBeforeMonth_le (isLeapYear d.year) d'.month (by have := h'.2.1; omega) d.month hm h.1
    have := h.2.2.2
    have := h'.2.2.1
    simp only [toDays, ← hy]
    omega
  · simp only [toDays, ← hy, ← hm]
    omega

/-- Of two dates, one is before the other unless they are equal. -/
theorem before_trichotomy (d d' : Date) : d.Before d' ∨ d = d' ∨ d'.Before d := by
  cases d
  cases d'
  simp only [Before, mk.injEq]
  omega

/-- Dates of the calendar with the same number are equal. -/
theorem eq_of_toDays_eq {d d' : Date} (h : d.IsReal) (h' : d'.IsReal) (he : d.toDays = d'.toDays) : d = d' := by
  rcases before_trichotomy d d' with hb | hb | hb
  · exact absurd he (Int.ne_of_lt (toDays_lt_toDays h h' hb))
  · exact hb
  · exact absurd he.symm (Int.ne_of_lt (toDays_lt_toDays h' h hb))

/-- A date of the calendar is found again from its number. -/
theorem ofDays_toDays {d : Date} (h : d.IsReal) : ofDays d.toDays = d :=
  eq_of_toDays_eq (isReal_ofDays _) h (toDays_ofDays _)

/-- The date one day earlier has the number one lower. -/
@[simp] theorem toDays_yesterday (d : Date) : d.yesterday.toDays = d.toDays - 1 :=
  toDays_ofDays _

end Date

/-! ### Moments -/

namespace Moment

/-- A moment is in the calendar when its date is, and its time is on the clock. -/
def IsReal (m : Moment) : Prop :=
  m.date.IsReal ∧ m.time.IsReal

/-- The moment of an instant is in the calendar. -/
theorem isReal_ofMillis (t : Int) : (ofMillis t).IsReal :=
  ⟨Date.isReal_ofDays _, TimeOfDay.isReal_ofSeconds (by omega)⟩

/-- The moment of an instant began at the last whole second. -/
theorem toMillis_ofMillis (t : Int) : (ofMillis t).toMillis = t - t % 1000 := by
  simp only [ofMillis, toMillis, Date.toDays_ofDays, TimeOfDay.toSeconds_ofSeconds]
  omega

/-- A moment of the calendar is found again from the instant at which it begins. -/
theorem ofMillis_toMillis {m : Moment} (h : m.IsReal) : ofMillis m.toMillis = m := by
  obtain ⟨date, time⟩ := m
  obtain ⟨hd, h1, h2, h3⟩ := h
  simp only at hd h1 h2 h3
  have hs : time.toSeconds < 86400 := by
    simp only [TimeOfDay.toSeconds]
    omega
  have hsec : 1000 * (86400 * date.toDays + time.toSeconds) / 1000 = 86400 * date.toDays + time.toSeconds := by omega
  have hday : (86400 * date.toDays + (time.toSeconds : Int)) / 86400 = date.toDays := by omega
  have hrem : ((86400 * date.toDays + (time.toSeconds : Int)) % 86400).toNat = time.toSeconds := by omega
  simp only [ofMillis, toMillis, hsec, hday, hrem, Date.ofDays_toDays hd, mk.injEq, true_and]
  cases time
  simp only at h1 h2 h3
  simp only [TimeOfDay.ofSeconds, TimeOfDay.toSeconds, TimeOfDay.mk.injEq]
  omega

end Moment

end Recurrence
