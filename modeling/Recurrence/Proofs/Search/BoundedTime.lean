import Mathlib.Data.Prod.Lex
import Mathlib.Order.Bounds.Basic
import Recurrence.Proofs.Search.LatestInstant

/-!
# Times of day up to a bound

The search for a time of day has a bound on the last date only, where the time must not be after the reference. A bound is a
reading of the clock, and what it has beyond its whole seconds does not count. Times go by the hour, the minute and the second,
in this order. The search finds the greatest time within its bound (`Expression.latestTimeWithin?_eq_some_iff`), and what the
limits of minutes and seconds do to it follows from that alone. Without a bound a time is missing only when a whole set has
no value on the clock, and then it is missing on every date. So a search that goes back to as many earlier dates as it likes
finds no more than one that goes back once (`Expression.latestMomentRetrying?_eq`).
-/

namespace Recurrence

/-! ### Times of day in order -/

namespace TimeOfDay

/-- The hour, then the minute, then the second. -/
def lex (t : TimeOfDay) : Nat ×ₗ Nat ×ₗ Nat :=
  toLex (t.hour, toLex (t.minute, t.second))

/-- A time of day has nothing but its hour, its minute and its second. -/
theorem lex_injective : Function.Injective lex := by
  intro t t' h
  obtain ⟨hour, minute, second⟩ := t
  obtain ⟨hour', minute', second'⟩ := t'
  simpa [lex] using h

instance : PartialOrder TimeOfDay :=
  PartialOrder.lift lex lex_injective

/-- A time is not after another if its hour is earlier, or in the same hour its minute, or in the same minute its second not
later. -/
theorem le_iff {t t' : TimeOfDay} :
    t ≤ t' ↔ t.hour < t'.hour ∨ t.hour = t'.hour ∧ (t.minute < t'.minute ∨ t.minute = t'.minute ∧ t.second ≤ t'.second) := by
  show lex t ≤ lex t' ↔ _
  simp only [lex, Prod.Lex.toLex_le_toLex]

/-- Times of the clock go by their seconds. -/
theorem toSeconds_le_toSeconds_iff {t t' : TimeOfDay} (h : t.IsReal) (h' : t'.IsReal) :
    t.toSeconds ≤ t'.toSeconds ↔ t ≤ t' := by
  obtain ⟨-, hm, hs⟩ := h
  obtain ⟨-, hm', hs'⟩ := h'
  rw [le_iff]
  simp only [toSeconds]
  omega

/-- No time of the clock is after the end of the day. -/
theorem le_endOfDay {t : TimeOfDay} (h : t.IsReal) : t ≤ endOfDay := by
  obtain ⟨hh, hm, hs⟩ := h
  rw [le_iff]
  simp only [endOfDay]
  omega

end TimeOfDay

/-! ### Readings of the clock -/

/-- A reading of the clock: the whole seconds since midnight, and the nanoseconds since then. In a leap second the nanoseconds
go on beyond a second. -/
structure ClockReading where
  seconds : Nat
  nanoseconds : Nat
  seconds_lt : seconds < 86400
  nanoseconds_lt : nanoseconds < 2000000000

namespace ClockReading

/-- A reading cut to whole seconds. -/
def truncated (r : ClockReading) : TimeOfDay :=
  TimeOfDay.ofSeconds r.seconds

/-- A reading that is cut to whole seconds is a time of the clock. -/
theorem isReal_truncated (r : ClockReading) : r.truncated.IsReal :=
  TimeOfDay.isReal_ofSeconds r.seconds_lt

/-- The reading at an instant. -/
def ofMillis (millis : Int) : ClockReading where
  seconds := (millis / 1000 % 86400).toNat
  nanoseconds := 1000000 * (millis % 1000).toNat
  seconds_lt := by omega
  nanoseconds_lt := by omega

/-- Cut to whole seconds, the reading at an instant is the time of its moment. -/
theorem truncated_ofMillis (millis : Int) : (ofMillis millis).truncated = (Moment.ofMillis millis).time :=
  rfl

end ClockReading

/-- The members of a set up to a limit. -/
def ValueSet.upTo (s : ValueSet) (limit : Nat) : Set Nat :=
  {n | n ∈ s ∧ n ≤ limit}

namespace Expression

variable {e : Expression} {bound : Option ClockReading} {t : TimeOfDay}

/-! ### The greatest time within a bound -/

/-- The latest time of day within a bound that an expression picks. Without a bound the whole day is searched. -/
def latestTimeWithin? (e : Expression) (bound : Option ClockReading) : Option TimeOfDay :=
  e.latestTime? (bound.elim .endOfDay ClockReading.truncated)

/-- The times of the clock that an expression picks and that are not after the whole seconds of a bound, if there is one. -/
def TimesWithin (e : Expression) (bound : Option ClockReading) : Set TimeOfDay :=
  {t | t.IsReal ∧ e.AtTime t ∧ ∀ b ∈ bound, t ≤ b.truncated}

/-- The times within a bound are those that the search is made for. -/
theorem atTimeUpTo_iff_mem_timesWithin :
    e.AtTimeUpTo (bound.elim .endOfDay ClockReading.truncated) t ↔ t ∈ e.TimesWithin bound := by
  constructor
  · rintro ⟨hreal, hat, hle⟩
    refine ⟨hreal, hat, fun b hb => ?_⟩
    obtain rfl := Option.mem_def.mp hb
    exact (TimeOfDay.toSeconds_le_toSeconds_iff hreal b.isReal_truncated).mp hle
  · rintro ⟨hreal, hat, hle⟩
    refine ⟨hreal, hat, ?_⟩
    cases bound with
    | none => exact (TimeOfDay.toSeconds_le_toSeconds_iff hreal (by decide)).mpr (TimeOfDay.le_endOfDay hreal)
    | some b => exact (TimeOfDay.toSeconds_le_toSeconds_iff hreal b.isReal_truncated).mpr (hle b rfl)

/-- The search finds the latest of the times within its bound. -/
theorem isLatest_latestTimeWithin? (e : Expression) (bound : Option ClockReading) :
    IsLatest (· ∈ e.TimesWithin bound) (fun t => (t.toSeconds : Int)) (e.latestTimeWithin? bound) := by
  have hreal : (bound.elim .endOfDay ClockReading.truncated).IsReal := by
    cases bound with
    | none => decide
    | some b => exact b.isReal_truncated
  exact (e.isLatest_latestTime? hreal).congr fun _ => atTimeUpTo_iff_mem_timesWithin

/-- The search finds a time exactly if it is the greatest within the bound. -/
theorem latestTimeWithin?_eq_some_iff : e.latestTimeWithin? bound = some t ↔ IsGreatest (e.TimesWithin bound) t := by
  have hgreatest : ∀ t', e.latestTimeWithin? bound = some t' → IsGreatest (e.TimesWithin bound) t' := by
    intro t' h
    have hlatest := e.isLatest_latestTimeWithin? bound
    rw [h] at hlatest
    refine ⟨hlatest.1, fun s hs => ?_⟩
    exact (TimeOfDay.toSeconds_le_toSeconds_iff hs.1 hlatest.1.1).mp (Int.ofNat_le.mp (hlatest.2 s hs))
  refine ⟨hgreatest t, fun h => ?_⟩
  cases hf : e.latestTimeWithin? bound with
  | none => exact absurd h.1 ((e.isLatest_latestTimeWithin? bound).eq_none_iff.mp hf t)
  | some t' => rw [(hgreatest t' hf).unique h]

/-- The search finds nothing exactly if there is no time within the bound. -/
theorem latestTimeWithin?_eq_none_iff : e.latestTimeWithin? bound = none ↔ e.TimesWithin bound = ∅ := by
  rw [(e.isLatest_latestTimeWithin? bound).eq_none_iff, Set.eq_empty_iff_forall_notMem]

/-! ### Limits of the parts of a time -/

/-- The second of the greatest time is the greatest up to a limit, when the bound leaves all seconds up to there. -/
theorem isGreatest_second (h : IsGreatest (e.TimesWithin bound) t) {limit : Nat} (hlimit : limit ≤ 59) (ht : t.second ≤ limit)
    (hleft : ∀ s ≤ limit, ∀ b ∈ bound, TimeOfDay.mk t.hour t.minute s ≤ b.truncated) :
    IsGreatest (e.second.upTo limit) t.second := by
  obtain ⟨⟨⟨hh, hm, -⟩, ⟨hhour, hminute, hsecond⟩, -⟩, hgreatest⟩ := h
  refine ⟨⟨hsecond, ht⟩, ?_⟩
  rintro s ⟨hs, hle⟩
  have hmem : TimeOfDay.mk t.hour t.minute s ∈ e.TimesWithin bound :=
    ⟨⟨hh, hm, Nat.le_trans hle hlimit⟩, ⟨hhour, hminute, hs⟩, hleft s hle⟩
  have := TimeOfDay.le_iff.mp (hgreatest hmem)
  simp only at this
  omega

/-- The minute of the greatest time is the greatest of all, when the bound leaves all minutes of its hour. -/
theorem isGreatest_minute (h : IsGreatest (e.TimesWithin bound) t)
    (hleft : ∀ m ≤ 59, ∀ b ∈ bound, TimeOfDay.mk t.hour m t.second ≤ b.truncated) :
    IsGreatest (e.minute.upTo 59) t.minute := by
  obtain ⟨⟨⟨hh, hm, hs⟩, ⟨hhour, hminute, hsecond⟩, -⟩, hgreatest⟩ := h
  refine ⟨⟨hminute, hm⟩, ?_⟩
  rintro m ⟨hmem, hle⟩
  have hwithin : TimeOfDay.mk t.hour m t.second ∈ e.TimesWithin bound :=
    ⟨⟨hh, hle, hs⟩, ⟨hhour, hmem, hsecond⟩, hleft m hle⟩
  have := TimeOfDay.le_iff.mp (hgreatest hwithin)
  simp only at this
  omega

/-- The minute of a bound limits the minutes of its own hour only, and its second the seconds of its own minute only. -/
theorem isGreatest_of_latestTimeWithin? {b : ClockReading} (h : e.latestTimeWithin? (some b) = some t) :
    (t.hour ≠ b.truncated.hour → IsGreatest (e.minute.upTo 59) t.minute) ∧
    (¬(t.hour = b.truncated.hour ∧ t.minute = b.truncated.minute) → IsGreatest (e.second.upTo 59) t.second) ∧
    (t.hour = b.truncated.hour ∧ t.minute = b.truncated.minute →
      IsGreatest (e.second.upTo b.truncated.second) t.second) := by
  have hgreatest := latestTimeWithin?_eq_some_iff.mp h
  have hle := TimeOfDay.le_iff.mp (hgreatest.1.2.2 b rfl)
  refine ⟨fun hhour => ?_, fun hminute => ?_, fun hminute => ?_⟩
  · refine isGreatest_minute hgreatest fun m _ b' hb' => ?_
    cases hb'
    exact TimeOfDay.le_iff.mpr (Or.inl (by show t.hour < _; omega))
  · refine isGreatest_second hgreatest (Nat.le_refl _) hgreatest.1.1.2.2 fun s _ b' hb' => ?_
    cases hb'
    rw [TimeOfDay.le_iff]
    simp only
    omega
  · refine isGreatest_second hgreatest b.isReal_truncated.2.2 (by omega) fun s hs b' hb' => ?_
    cases hb'
    exact TimeOfDay.le_iff.mpr (Or.inr ⟨hminute.1, Or.inr ⟨hminute.2, hs⟩⟩)

/-- Without a bound a time is missing exactly if one of the three sets has no value on the clock. -/
theorem latestTimeWithin?_none_eq_none_iff :
    e.latestTimeWithin? none = none ↔ e.hour.upTo 23 = ∅ ∨ e.minute.upTo 59 = ∅ ∨ e.second.upTo 59 = ∅ := by
  rw [latestTimeWithin?_eq_none_iff]
  constructor
  · intro h
    by_contra hn
    simp only [not_or, ← ne_eq, ← Set.nonempty_iff_ne_empty] at hn
    obtain ⟨⟨hour, hhour, hh⟩, ⟨minute, hminute, hm⟩, ⟨second, hsecond, hs⟩⟩ := hn
    have hmem : TimeOfDay.mk hour minute second ∈ e.TimesWithin none :=
      ⟨⟨hh, hm, hs⟩, ⟨hhour, hminute, hsecond⟩, fun b hb => nomatch hb⟩
    rw [h] at hmem
    exact hmem
  · intro h
    refine Set.eq_empty_iff_forall_notMem.mpr fun t ht => ?_
    obtain ⟨⟨hh, hm, hs⟩, ⟨hhour, hminute, hsecond⟩, -⟩ := ht
    rcases h with h | h | h
    · exact Set.eq_empty_iff_forall_notMem.mp h t.hour ⟨hhour, hh⟩
    · exact Set.eq_empty_iff_forall_notMem.mp h t.minute ⟨hminute, hm⟩
    · exact Set.eq_empty_iff_forall_notMem.mp h t.second ⟨hsecond, hs⟩

/-! ### Going back to earlier dates -/

/-- The latest moment up to a date that an expression picks, for a search that goes back to an earlier date when it finds no
time on the one that it came to, and does so a number of times at most. The bound is for the time on the date given. -/
def latestMomentRetrying? (e : Expression) (retries : Nat) (upTo : Date) (bound : Option ClockReading) : Option Moment :=
  (e.latestDate? upTo).bind fun date =>
    ((e.latestTimeWithin? (if date = upTo then bound else none)).map (Moment.mk date)).or
      (match retries with
        | 0 => none
        | retries + 1 => e.latestMomentRetrying? retries date.yesterday none)

/-- Where no time is found without a bound, none is found on an earlier date. -/
theorem map_or_bind_latestTimeWithin?_none (e : Expression) (date : Date) (earlier : Option Date) :
    ((e.latestTimeWithin? none).map (Moment.mk date)).or
        (earlier.bind fun date => (e.latestTimeWithin? none).map (Moment.mk date)) =
      (e.latestTimeWithin? none).map (Moment.mk date) := by
  cases e.latestTimeWithin? none with
  | some t => rfl
  | none => exact Option.bind_fun_none earlier

/-- Without a bound the first date that is found has all times that a date can have. -/
theorem latestMomentRetrying?_none (e : Expression) (retries : Nat) (upTo : Date) :
    e.latestMomentRetrying? retries upTo none =
      (e.latestDate? upTo).bind fun date => (e.latestTimeWithin? none).map (Moment.mk date) := by
  induction retries generalizing upTo with
  | zero =>
    rw [latestMomentRetrying?]
    simp only [ite_self, Option.or_none]
  | succ retries ih =>
    rw [latestMomentRetrying?]
    simp only [ite_self, ih, map_or_bind_latestTimeWithin?_none]

/-- Up to a date that is picked, it is the latest. -/
theorem latestDate?_of_onDate {d : Date} (hreal : d.IsReal) (h : e.OnDate d) : e.latestDate? d = some d := by
  have hlatest := e.isLatest_latestDate? hreal
  cases hf : e.latestDate? d with
  | none => exact absurd ⟨hreal, h, Int.le_refl _⟩ (hlatest.eq_none_iff.mp hf d)
  | some d' =>
    rw [hf] at hlatest
    obtain ⟨⟨hreal', -, hle⟩, hgreatest⟩ := hlatest
    have hge := hgreatest d ⟨hreal, h, Int.le_refl _⟩
    rw [Date.eq_of_toDays_eq hreal' hreal (Int.le_antisymm hle hge)]

/-- Up to a date that is not picked, the latest is the latest up to the day before. -/
theorem latestDate?_of_not_onDate {d : Date} (hreal : d.IsReal) (h : ¬e.OnDate d) :
    e.latestDate? d = e.latestDate? d.yesterday := by
  have hday := e.isLatest_latestDate? hreal
  have hyesterday : d.yesterday.IsReal := Date.isReal_ofDays _
  have hbefore := e.isLatest_latestDate? hyesterday
  refine (hday.congr fun d' => ?_).unique_of_inj hbefore fun d' d'' h' h'' => Date.eq_of_toDays_eq h'.1 h''.1
  rw [OnDateUpTo, OnDateUpTo, Date.toDays_yesterday]
  constructor
  · rintro ⟨hreal', hon, hle⟩
    have hne : d'.toDays ≠ d.toDays := fun heq => h (Date.eq_of_toDays_eq hreal' hreal heq ▸ hon)
    exact ⟨hreal', hon, by omega⟩
  · rintro ⟨hreal', hon, hle⟩
    exact ⟨hreal', hon, by omega⟩

/-- A search that may go back to an earlier date once or more finds the latest moment. -/
theorem latestMomentRetrying?_eq (e : Expression) (retries : Nat) (now : Int) :
    e.latestMomentRetrying? (retries + 1) (Moment.ofMillis now).date (some (.ofMillis now)) =
      e.latestMoment? (Moment.ofMillis now) := by
  have hreal := (Moment.isReal_ofMillis now).1
  rw [latestMomentRetrying?, latestMoment?, latestOnDate?, latestBeforeDate?]
  simp only [latestMomentRetrying?_none]
  by_cases hon : e.OnDate (Moment.ofMillis now).date
  · rw [latestDate?_of_onDate hreal hon, if_pos hon, Option.bind_some, if_pos rfl, latestTimeWithin?, Option.elim_some,
      ClockReading.truncated_ofMillis]
    rfl
  · rw [latestDate?_of_not_onDate hreal hon, if_neg hon, Option.none_or]
    cases hf : e.latestDate? (Moment.ofMillis now).date.yesterday with
    | none => rfl
    | some d =>
      have hyesterday : (Moment.ofMillis now).date.yesterday.IsReal := Date.isReal_ofDays _
      have hfound := e.isLatest_latestDate? hyesterday
      rw [hf] at hfound
      have hne : d ≠ (Moment.ofMillis now).date := fun heq => hon (heq ▸ hfound.1.2.1)
      rw [Option.bind_some, if_neg hne, map_or_bind_latestTimeWithin?_none]
      rfl

/-- The search for a time of day is exact, for every expression and every bound, and for none.
1. It finds a time exactly if that is the greatest, by its hour, its minute and its second, of the times of the clock that the
   expression picks and that are not after the bound cut to whole seconds. It finds nothing exactly if there is no such time.
2. The minute of a bound limits the minutes of its own hour only, and its second the seconds of its own minute only.
3. Without a bound nothing is found exactly if one of the three sets has no value on the clock.
4. A search for a moment that goes back to an earlier date, when no time is left on the one that it came to, need not do so
   more than once: it finds the same however often it may. -/
theorem latestTimeWithin?_exact (e : Expression) (bound : Option ClockReading) :
    (∀ t, e.latestTimeWithin? bound = some t ↔ IsGreatest (e.TimesWithin bound) t) ∧
    (e.latestTimeWithin? bound = none ↔ e.TimesWithin bound = ∅) ∧
    (∀ b t, bound = some b → e.latestTimeWithin? bound = some t →
      (t.hour ≠ b.truncated.hour → IsGreatest (e.minute.upTo 59) t.minute) ∧
      (¬(t.hour = b.truncated.hour ∧ t.minute = b.truncated.minute) → IsGreatest (e.second.upTo 59) t.second) ∧
      (t.hour = b.truncated.hour ∧ t.minute = b.truncated.minute →
        IsGreatest (e.second.upTo b.truncated.second) t.second)) ∧
    (e.latestTimeWithin? none = none ↔ e.hour.upTo 23 = ∅ ∨ e.minute.upTo 59 = ∅ ∨ e.second.upTo 59 = ∅) ∧
    ∀ retries now, e.latestMomentRetrying? (retries + 1) (Moment.ofMillis now).date (some (.ofMillis now)) =
      e.latestMoment? (Moment.ofMillis now) := by
  refine ⟨fun _ => latestTimeWithin?_eq_some_iff, latestTimeWithin?_eq_none_iff, ?_, latestTimeWithin?_none_eq_none_iff,
    e.latestMomentRetrying?_eq⟩
  intro b t hbound ht
  subst hbound
  exact isGreatest_of_latestTimeWithin? ht

example : (read "30 15,45 9 * * *").latestTimeWithin? (some ⟨35129, 999000000, by decide, by decide⟩) = some ⟨9, 15, 30⟩ := by
  cbv

end Expression

end Recurrence
