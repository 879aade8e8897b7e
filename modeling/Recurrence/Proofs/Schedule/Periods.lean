import Recurrence.Proofs.Selection

/-!
# Weekly and daily countdowns

An expression that restricts only the day of the week and the time of day recurs every week from 1970 to 2099, across the ends
of months and years and across leap days, because the day of the week depends on the number of a day alone
(`Expression.IsWeekly.matches_iff`). Its matches are the instants that lie whole periods apart from one offset: a period is a
week, or a day when no day of the week is left out. The last match is then less than a period ago, the next one is a period after
the last, and the seconds left of a cycle of one period end there, to within half a second (`Expression.isWeekly_countdown`).
-/

namespace Recurrence

/-- The instant at which a date begins. -/
def Date.start (d : Date) : Int :=
  86400000 * d.toDays

namespace Expression

/-! ## Weekly expressions -/

/-- An expression picks a value of a field when the value is in its set and within the bounds of the field. -/
def Picks (e : Expression) (f : Field) (n : Nat) : Prop :=
  f.min ≤ n ∧ n ≤ f.max ∧ n ∈ e.values f

instance (e : Expression) (f : Field) (n : Nat) : Decidable (e.Picks f n) :=
  inferInstanceAs (Decidable (_ ∧ _))

/-- An expression leaves a field free when it picks all values within the bounds of the field. -/
def LeavesFree (e : Expression) (f : Field) : Prop :=
  ∀ n, f.min ≤ n → n ≤ f.max → n ∈ e.values f

/-- An expression picks a time of day when it picks the hour, the minute and the second. -/
def PicksTime (e : Expression) (time : TimeOfDay) : Prop :=
  e.Picks .hour time.hour ∧ e.Picks .minute time.minute ∧ e.Picks .second time.second

/-- An expression that restricts only the day of the week and the time of day, and picks at least one of each. -/
structure IsWeekly (e : Expression) : Prop where
  dayOfMonth : e.LeavesFree .dayOfMonth
  month : e.LeavesFree .month
  year : e.LeavesFree .year
  dayOfWeek : ∃ n, e.Picks .dayOfWeek n
  hour : ∃ n, e.Picks .hour n
  minute : ∃ n, e.Picks .minute n
  second : ∃ n, e.Picks .second n

/-- An expression that picks one time of day only. -/
structure HasOneTime (e : Expression) : Prop where
  hour : ∃! n, e.Picks .hour n
  minute : ∃! n, e.Picks .minute n
  second : ∃! n, e.Picks .second n

/-- An expression matches next at `t`, as seen at `now`: there is no earlier match after `now`. -/
def NextMatch (e : Expression) (now t : Int) : Prop :=
  IsLeast {t | e.Matches t ∧ now < t} t

variable {e : Expression} {now t : Int}

/-- A time of day that is picked is on the clock. -/
theorem PicksTime.isReal {time : TimeOfDay} (h : e.PicksTime time) : time.IsReal :=
  ⟨h.1.2.1, h.2.1.2.1, h.2.2.2.1⟩

/-- A weekly expression picks a time of day. -/
theorem IsWeekly.exists_picksTime (h : e.IsWeekly) : ∃ time, e.PicksTime time := by
  obtain ⟨hour, hhour⟩ := h.hour
  obtain ⟨minute, hminute⟩ := h.minute
  obtain ⟨second, hsecond⟩ := h.second
  exact ⟨⟨hour, minute, second⟩, hhour, hminute, hsecond⟩

/-- An expression with one time of day picks no two. -/
theorem HasOneTime.eq_of_picksTime (h : e.HasOneTime) {time time' : TimeOfDay} (htime : e.PicksTime time)
    (htime' : e.PicksTime time') : time = time' := by
  obtain ⟨hour, minute, second⟩ := time
  obtain ⟨hour', minute', second'⟩ := time'
  obtain rfl : hour = hour' := h.hour.unique htime.1 htime'.1
  obtain rfl : minute = minute' := h.minute.unique htime.2.1 htime'.2.1
  obtain rfl : second = second' := h.second.unique htime.2.2 htime'.2.2
  rfl

/-! ## Weekdays and times of an instant -/

/-- The calendar values of an instant from 1970 to 2099 are within the bounds of their fields. -/
theorem value_mem_bounds (hstart : 0 ≤ t) (hend : t < Date.start ⟨2100, 1, 1⟩) (f : Field) :
    f.min ≤ (Moment.ofMillis t).value f ∧ (Moment.ofMillis t).value f ≤ f.max := by
  obtain ⟨⟨hmonth, hmonth', hday, hday'⟩, hhour, hminute, hsecond⟩ := Moment.isReal_ofMillis t
  have hlength : monthLength (isLeapYear (Moment.ofMillis t).date.year) (Moment.ofMillis t).date.month ≤ 31 := by
    unfold monthLength
    split
    · split <;> omega
    all_goals omega
  have hyear : 1970 ≤ (Moment.ofMillis t).date.year := by
    have hfirst : daysBeforeYear 1970 = 0 := by decide
    rw [Moment.le_year_ofMillis_iff]
    omega
  have hyear' : ¬2100 ≤ (Moment.ofMillis t).date.year := by
    have hafter : 86400000 * daysBeforeYear 2100 = Date.start ⟨2100, 1, 1⟩ := by decide
    rw [Moment.le_year_ofMillis_iff]
    omega
  cases f with
  | second => exact ⟨Nat.zero_le _, hsecond⟩
  | minute => exact ⟨Nat.zero_le _, hminute⟩
  | hour => exact ⟨Nat.zero_le _, hhour⟩
  | dayOfMonth => exact ⟨hday, Nat.le_trans hday' hlength⟩
  | month => exact ⟨hmonth, hmonth'⟩
  | dayOfWeek => simp only [Moment.value, Date.weekday, Field.min, Field.max]; omega
  | year => simp only [Moment.value, Field.min, Field.max]; omega

/-- From 1970 to 2099 an expression matches the whole seconds of which it picks every calendar value. -/
theorem matches_iff_picks (hstart : 0 ≤ t) (hend : t < Date.start ⟨2100, 1, 1⟩) :
    e.Matches t ↔ t % 1000 = 0 ∧ ∀ f, e.Picks f ((Moment.ofMillis t).value f) := by
  have hbounds := value_mem_bounds hstart hend
  constructor
  · rintro ⟨hsec, -, hvalue⟩
    exact ⟨hsec, fun f => ⟨(hbounds f).1, (hbounds f).2, hvalue f⟩⟩
  · rintro ⟨hsec, hpicks⟩
    have hyear := (hbounds .year).1
    simp only [Moment.value, Field.min] at hyear
    exact ⟨hsec, by omega, fun f => (hpicks f).2.2⟩

/-- The day of the week of an instant follows from its whole days. -/
theorem value_dayOfWeek (t : Int) : (Moment.ofMillis t).value .dayOfWeek = ((t / 1000 / 86400 + 4) % 7).toNat := by
  rw [Moment.value, Date.weekday, Moment.toDays_date_ofMillis]

/-- From 1970 to 2099, a weekly expression matches the whole seconds of which it picks the day of the week and the time. -/
theorem IsWeekly.matches_iff (h : e.IsWeekly) (hstart : 0 ≤ t) (hend : t < Date.start ⟨2100, 1, 1⟩) :
    e.Matches t ↔ t % 1000 = 0 ∧ e.Picks .dayOfWeek ((t / 1000 / 86400 + 4) % 7).toNat ∧
      e.PicksTime (.ofSeconds (t / 1000 % 86400).toNat) := by
  have hfree : ∀ f, e.LeavesFree f → e.Picks f ((Moment.ofMillis t).value f) := by
    intro f hf
    obtain ⟨hmin, hmax⟩ := value_mem_bounds hstart hend f
    exact ⟨hmin, hmax, hf _ hmin hmax⟩
  rw [matches_iff_picks hstart hend, ← value_dayOfWeek]
  constructor
  · rintro ⟨hsec, hpicks⟩
    exact ⟨hsec, hpicks .dayOfWeek, hpicks .hour, hpicks .minute, hpicks .second⟩
  · rintro ⟨hsec, hweekday, hhour, hminute, hsecond⟩
    refine ⟨hsec, fun f => ?_⟩
    cases f with
    | second => exact hsecond
    | minute => exact hminute
    | hour => exact hhour
    | dayOfMonth => exact hfree _ h.dayOfMonth
    | month => exact hfree _ h.month
    | dayOfWeek => exact hweekday
    | year => exact hfree _ h.year

/-! ## Periods -/

/-- The offset of a time of day from the beginning of the day. -/
def offsetInDay (time : TimeOfDay) : Int :=
  1000 * time.toSeconds

/-- The offset of a day of the week and a time of day from the beginning of a Thursday, the day of the week of 1970-01-01. -/
def offsetInWeek (weekday : Nat) (time : TimeOfDay) : Int :=
  86400000 * ((weekday + 3) % 7 : Nat) + offsetInDay time

/-- From 1970 to 2099 an expression matches at every instant that lies whole periods from an offset. -/
def RecursEvery (e : Expression) (period offset : Int) : Prop :=
  ∀ t, 0 ≤ t → t < Date.start ⟨2100, 1, 1⟩ → period ∣ t - offset → e.Matches t

/-- From 1970 to 2099 an expression matches at no other instant. -/
def RecursOnlyEvery (e : Expression) (period offset : Int) : Prop :=
  ∀ t, 0 ≤ t → t < Date.start ⟨2100, 1, 1⟩ → e.Matches t → period ∣ t - offset

variable {weekday : Nat} {time : TimeOfDay}

/-- A weekly expression recurs every week at each day of the week and each time that it picks. -/
theorem IsWeekly.recursEvery_week (h : e.IsWeekly) (hweekday : e.Picks .dayOfWeek weekday) (htime : e.PicksTime time) :
    e.RecursEvery 604800000 (offsetInWeek weekday time) := by
  intro t hstart hend hperiod
  have hle : weekday ≤ 6 := hweekday.2.1
  have hreal := TimeOfDay.toSeconds_lt htime.isReal
  simp only [offsetInWeek, offsetInDay] at hperiod
  have hsec : t % 1000 = 0 := by omega
  have hday : ((t / 1000 / 86400 + 4) % 7).toNat = weekday := by omega
  have hseconds : (t / 1000 % 86400).toNat = time.toSeconds := by omega
  rw [h.matches_iff hstart hend, hday, hseconds, TimeOfDay.ofSeconds_toSeconds htime.isReal]
  exact ⟨hsec, hweekday, htime⟩

/-- A weekly expression that leaves the day of the week free recurs every day at each time that it picks. -/
theorem IsWeekly.recursEvery_day (h : e.IsWeekly) (hfree : e.LeavesFree .dayOfWeek) (htime : e.PicksTime time) :
    e.RecursEvery 86400000 (offsetInDay time) := by
  intro t hstart hend hperiod
  have hday : e.Picks .dayOfWeek ((t / 1000 / 86400 + 4) % 7).toNat := by
    have hle : ((t / 1000 / 86400 + 4) % 7).toNat ≤ Field.dayOfWeek.max := by
      show _ ≤ 6
      omega
    exact ⟨Nat.zero_le _, hle, hfree _ (Nat.zero_le _) hle⟩
  have hreal := TimeOfDay.toSeconds_lt htime.isReal
  refine h.recursEvery_week hday htime t hstart hend ?_
  simp only [offsetInWeek, offsetInDay] at hperiod ⊢
  omega

/-- A weekly expression with one time of day matches at that time only. -/
theorem IsWeekly.recursOnlyEvery_day (h : e.IsWeekly) (hone : e.HasOneTime) (htime : e.PicksTime time) :
    e.RecursOnlyEvery 86400000 (offsetInDay time) := by
  intro t hstart hend hmatch
  obtain ⟨hsec, -, hpicks⟩ := (h.matches_iff hstart hend).mp hmatch
  have hseconds := TimeOfDay.toSeconds_ofSeconds (t / 1000 % 86400).toNat
  rw [hone.eq_of_picksTime hpicks htime] at hseconds
  simp only [offsetInDay]
  omega

/-- A weekly expression with one day of the week and one time of day matches on that day and at that time only. -/
theorem IsWeekly.recursOnlyEvery_week (h : e.IsWeekly) (hone : e.HasOneTime) (htime : e.PicksTime time)
    (hday : ∀ n, e.Picks .dayOfWeek n → n = weekday) : e.RecursOnlyEvery 604800000 (offsetInWeek weekday time) := by
  intro t hstart hend hmatch
  have hperiod := h.recursOnlyEvery_day hone htime t hstart hend hmatch
  have hreal := TimeOfDay.toSeconds_lt htime.isReal
  have hweekday := hday _ ((h.matches_iff hstart hend).mp hmatch).2.1
  simp only [offsetInWeek, offsetInDay] at hperiod ⊢
  omega

/-! ## The last match and the next one -/

variable {period offset : Int}

/-- What recurs has its last match less than a period ago, once a period has passed. -/
theorem RecursEvery.exists_lastMatch (h : e.RecursEvery period offset) (hpos : 0 < period) (hstart : period ≤ now)
    (hend : now < Date.start ⟨2100, 1, 1⟩) : ∃ t, e.LastMatch now t ∧ now - t < period := by
  have hcalendar : InCalendar now := by
    have hend' : Date.start ⟨2100, 1, 1⟩ = 4102444800000 := by decide
    simp only [InCalendar]
    omega
  have hnonneg := Int.emod_nonneg (now - offset) (Int.ne_of_gt hpos)
  have hlt := Int.emod_lt_of_pos (now - offset) hpos
  have hdvd : period ∣ now - (now - offset) % period - offset := by
    have hcomm : now - (now - offset) % period - offset = now - offset - (now - offset) % period := by omega
    rw [hcomm]
    exact Int.dvd_self_sub_of_emod_eq rfl
  have hmatch : e.Matches (now - (now - offset) % period) := h _ (by omega) (by omega) hdvd
  obtain ⟨t, hlast, hle⟩ := Expression.exists_lastMatch hcalendar hmatch (by omega)
  exact ⟨t, hlast, by omega⟩

/-- What recurs and matches at no other instant has its next match a period after the last one. -/
theorem RecursEvery.nextMatch_eq (h : e.RecursEvery period offset) (honly : e.RecursOnlyEvery period offset)
    {next : Int} (hlast : e.LastMatch now t) (hrecent : now - t < period) (hnext : e.NextMatch now next)
    (hend : next < Date.start ⟨2100, 1, 1⟩) : next = t + period := by
  obtain ⟨-, ⟨hmatch, hle⟩, -⟩ := hlast
  obtain ⟨⟨hmatch', hlt⟩, hleast⟩ := hnext
  have hnonneg := hmatch.nonneg
  have hdvd := honly t hnonneg (by omega) hmatch
  have hdvd' := honly next (by omega) hend hmatch'
  -- Both matches lie whole periods from the offset, and so from each other.
  have hapart : period ∣ next - t := by
    have hdiff : next - t = next - offset - (t - offset) := by omega
    rw [hdiff]
    exact Int.dvd_sub hdvd' hdvd
  have hge : period ≤ next - t := Int.le_of_dvd (by omega) hapart
  have hmatch'' : e.Matches (t + period) := by
    refine h (t + period) (by omega) (by omega) ?_
    have hsum : t + period - offset = t - offset + period := by omega
    rw [hsum]
    exact Int.dvd_add hdvd (Int.dvd_refl period)
  have hle' : next ≤ t + period := hleast ⟨hmatch'', by omega⟩
  omega

/-- The time since the last match of what recurs is found, and is less than a period. -/
theorem RecursEvery.exists_elapsed? {now : Int64} (h : e.RecursEvery period offset) (hpos : 0 < period)
    (hstart : period ≤ now.toInt) (hend : now.toInt < Date.start ⟨2100, 1, 1⟩) :
    ∃ elapsed, e.elapsed? now = some elapsed ∧ (elapsed.toNat : Int) < period := by
  obtain ⟨t, hlast, hrecent⟩ := h.exists_lastMatch hpos hstart hend
  have hnat := toNat_ofNat_sub_of_lastMatch hlast
  have hle := hlast.2.1.2
  refine ⟨UInt64.ofNat (now.toInt - t).toNat, ?_, by omega⟩
  rw [elapsed?, (e.latestInstant?_eq_some_iff now.toInt t).mpr hlast, Option.map_some]

/-- The seconds left of a cycle of one period end at the next match, to within half a second. -/
theorem RecursEvery.natAbs_remaining_le {now : Int64} {cycle : UInt64} (h : e.RecursEvery period offset)
    (honly : e.RecursOnlyEvery period offset) (hperiod : period = 1000 * cycle.toNat) (hpos : 0 < period)
    (hstart : period ≤ now.toInt) (hend : now.toInt < Date.start ⟨2100, 1, 1⟩) {next : Int}
    (hnext : e.NextMatch now.toInt next) (hend' : next < Date.start ⟨2100, 1, 1⟩) :
    (1000 * ((Selection.ofCandidates [⟨e, cycle⟩] now).remaining.toNat : Int) - (next - now.toInt)).natAbs ≤ 500 := by
  obtain ⟨t, hlast, hrecent⟩ := h.exists_lastMatch hpos hstart hend
  have hle := hlast.2.1.2
  have hnext' := h.nextMatch_eq honly hlast hrecent hnext hend'
  have hleft : (Selection.ofCandidates [⟨e, cycle⟩] now).remaining.toNat =
      cycle.toNat - ((now.toInt - t + 500) / 1000).toNat :=
    (Selection.ofCandidates_of_isMostRecent (Selection.isMostRecent_singleton hlast)).2
  rw [hleft]
  omega

/-! ## Weekly and daily -/

/-- An expression that restricts only the day of the week and the time of day has a last match less than a week ago, at every
instant before 2100 that is a week or more after the beginning of 1970; and less than a day ago, from a day after that beginning
on, if it leaves the day of the week free. If it picks one time of day only, and one day of the week or all of them, then a cycle
of that week or day ends at the next match, to within half a second, whenever that match is before 2100. -/
theorem isWeekly_countdown (e : Expression) (hweekly : e.IsWeekly) (now : Int64)
    (hend : now.toInt < Date.start ⟨2100, 1, 1⟩) :
    (Date.start ⟨1970, 1, 8⟩ ≤ now.toInt → ∃ elapsed, e.elapsed? now = some elapsed ∧ elapsed.toNat < 604800000) ∧
    (e.LeavesFree .dayOfWeek → Date.start ⟨1970, 1, 2⟩ ≤ now.toInt →
      ∃ elapsed, e.elapsed? now = some elapsed ∧ elapsed.toNat < 86400000) ∧
    (e.HasOneTime → (∃! n, e.Picks .dayOfWeek n) → Date.start ⟨1970, 1, 8⟩ ≤ now.toInt →
      ∀ next, e.NextMatch now.toInt next → next < Date.start ⟨2100, 1, 1⟩ →
        (1000 * ((Selection.ofCandidates [⟨e, 604800⟩] now).remaining.toNat : Int) - (next - now.toInt)).natAbs ≤ 500) ∧
    (e.HasOneTime → e.LeavesFree .dayOfWeek → Date.start ⟨1970, 1, 2⟩ ≤ now.toInt →
      ∀ next, e.NextMatch now.toInt next → next < Date.start ⟨2100, 1, 1⟩ →
        (1000 * ((Selection.ofCandidates [⟨e, 86400⟩] now).remaining.toNat : Int) - (next - now.toInt)).natAbs ≤ 500) := by
  have hweek : Date.start ⟨1970, 1, 8⟩ = 604800000 := by decide
  have hday : Date.start ⟨1970, 1, 2⟩ = 86400000 := by decide
  obtain ⟨time, htime⟩ := hweekly.exists_picksTime
  rw [hweek, hday]
  refine ⟨?_, ?_, ?_, ?_⟩
  · intro hstart
    obtain ⟨weekday, hweekday⟩ := hweekly.dayOfWeek
    obtain ⟨elapsed, hfound, hlt⟩ :=
      (hweekly.recursEvery_week hweekday htime).exists_elapsed? (by decide) hstart hend
    exact ⟨elapsed, hfound, by omega⟩
  · intro hfree hstart
    obtain ⟨elapsed, hfound, hlt⟩ := (hweekly.recursEvery_day hfree htime).exists_elapsed? (by decide) hstart hend
    exact ⟨elapsed, hfound, by omega⟩
  · intro hone hunique hstart next hnext hend'
    obtain ⟨weekday, hweekday, honly⟩ := hunique
    exact (hweekly.recursEvery_week hweekday htime).natAbs_remaining_le (hweekly.recursOnlyEvery_week hone htime honly)
      (by decide) (by decide) hstart hend hnext hend'
  · intro hone hfree hstart next hnext hend'
    exact (hweekly.recursEvery_day hfree htime).natAbs_remaining_le (hweekly.recursOnlyEvery_day hone htime)
      (by decide) (by decide) hstart hend hnext hend'

/-! ## Half a second before the next match -/

/-- The expression that matches at half a minute past nine on some days of the week. The hour 25 never comes. -/
def mornings (weekdays : ValueSet) : Expression :=
  .ofFields fun
    | .second => .singleton 30
    | .minute => .singleton 0
    | .hour => ⟨[9, 25], by decide⟩
    | .dayOfWeek => weekdays
    | f => .progression f.min f.max 1

/-- Some mornings of the week are a weekly expression with one time of day. -/
theorem isWeekly_mornings (weekdays : ValueSet) (h : ∃ n ∈ weekdays, n ≤ 6) :
    (mornings weekdays).IsWeekly ∧ (mornings weekdays).HasOneTime := by
  have hmem : ∀ (f : Field) (n : Nat), f.min ≤ n → n ≤ f.max → n ∈ ValueSet.progression f.min f.max 1 :=
    fun f n hmin hmax => ValueSet.mem_progression.mpr ⟨hmin, hmax, Nat.mod_one _⟩
  have hhour : ∀ n ≤ 23, n ∈ (⟨[9, 25], by decide⟩ : ValueSet) → n = 9 := by decide
  have hpicks : (mornings weekdays).PicksTime ⟨9, 0, 30⟩ :=
    ⟨⟨by decide, by decide, List.mem_cons_self⟩, ⟨by decide, by decide, List.mem_cons_self⟩,
      ⟨by decide, by decide, List.mem_cons_self⟩⟩
  obtain ⟨n, hn, hle⟩ := h
  refine ⟨⟨hmem .dayOfMonth, hmem .month, hmem .year, ⟨n, Nat.zero_le _, hle, hn⟩, ⟨9, hpicks.1⟩, ⟨0, hpicks.2.1⟩,
    ⟨30, hpicks.2.2⟩⟩, ⟨⟨9, hpicks.1, ?_⟩, ⟨0, hpicks.2.1, ?_⟩, ⟨30, hpicks.2.2, ?_⟩⟩⟩
  · exact fun m hm => hhour m hm.2.1 hm.2.2
  · exact fun m hm => ValueSet.mem_singleton.mp hm.2.2
  · exact fun m hm => ValueSet.mem_singleton.mp hm.2.2

/-- Half a second before nine o'clock and half a minute on Monday 2024-03-04, with a leap day in the week that ends there, the
last match is rounded to a whole period ago. Nothing is left of the week, and nothing of the day. -/
theorem isWeekly_countdown_half_second :
    let mondays := mornings (.singleton 1)
    let days := mornings (.progression 0 6 1)
    mondays.IsWeekly ∧ mondays.HasOneTime ∧ (∃! n, mondays.Picks .dayOfWeek n) ∧
      days.IsWeekly ∧ days.HasOneTime ∧ days.LeavesFree .dayOfWeek ∧
      (∃ elapsed, mondays.elapsed? 1709542829500 = some elapsed ∧ elapsed.toNat < 604800000) ∧
      (∃ elapsed, days.elapsed? 1709542829500 = some elapsed ∧ elapsed.toNat < 86400000) ∧
      mondays.NextMatch 1709542829500 1709542830000 ∧ days.NextMatch 1709542829500 1709542830000 ∧
      (Selection.ofCandidates [⟨mondays, 604800⟩] 1709542829500).remaining = 0 ∧
      (1000 * ((Selection.ofCandidates [⟨mondays, 604800⟩] 1709542829500).remaining.toNat : Int) - 500).natAbs ≤ 500 ∧
      (1000 * ((Selection.ofCandidates [⟨days, 86400⟩] 1709542829500).remaining.toNat : Int) - 500).natAbs ≤ 500 := by
  intro mondays days
  obtain ⟨hmondays, hmondays'⟩ := isWeekly_mornings (.singleton 1) ⟨1, by decide, by decide⟩
  obtain ⟨hdays, hdays'⟩ := isWeekly_mornings (.progression 0 6 1) ⟨1, by decide, by decide⟩
  have hunique : ∃! n, mondays.Picks .dayOfWeek n :=
    ⟨1, by decide, fun n hn => ValueSet.mem_singleton.mp hn.2.2⟩
  have hfree : days.LeavesFree .dayOfWeek :=
    fun n hmin hmax => ValueSet.mem_progression.mpr ⟨hmin, hmax, Nat.mod_one _⟩
  have hsoon : ∀ e : Expression, e.Matches 1709542830000 → e.NextMatch 1709542829500 1709542830000 := by
    refine fun e hmatch => ⟨⟨hmatch, by decide⟩, fun t ht => ?_⟩
    have hsec := ht.1.1
    have hlt := ht.2
    omega
  have hnext : mondays.NextMatch 1709542829500 1709542830000 := hsoon _ (by decide)
  have hnext' : days.NextMatch 1709542829500 1709542830000 := hsoon _ (by decide)
  obtain ⟨hfound, -, hleft, -⟩ := isWeekly_countdown mondays hmondays 1709542829500 (by decide)
  obtain ⟨-, hfound', -, hleft'⟩ := isWeekly_countdown days hdays 1709542829500 (by decide)
  exact ⟨hmondays, hmondays', hunique, hdays, hdays', hfree, hfound (by decide), hfound' hfree (by decide), hnext, hnext',
    by decide, hleft hmondays' hunique (by decide) _ hnext (by decide),
    hleft' hdays' hfree (by decide) _ hnext' (by decide)⟩

end Expression

end Recurrence
