import Mathlib.Order.Bounds.Basic
import Recurrence.Expression.Reader
import Recurrence.Proofs.Search.LatestDate
import Recurrence.Proofs.Search.LatestTime
import Recurrence.Search.Occurrence

/-!
# The latest match is found

An instant matches an expression when it is a whole second from 1970 on and each of its calendar values is in the set of its
field (`Expression.Matches`). The search for the latest moment combines the search for a date with the search for a time of
day. It comes to an answer at the second date at the latest, because the times of a date that is not the last are not cut
(`Expression.isLatest_latestMoment?`). Read as instants this is the exactness of the backward search: what is found is the
greatest match up to the reference, and nothing is found only where there is no match (`Expression.read_elapsed?_exact`).
-/

namespace Recurrence

/-! ## Matching instants -/

/-- The value that a moment has in a field. -/
def Moment.value (m : Moment) : Field → Nat
  | .second => m.time.second
  | .minute => m.time.minute
  | .hour => m.time.hour
  | .dayOfMonth => m.date.day
  | .month => m.date.month
  | .dayOfWeek => m.date.weekday
  | .year => m.date.year.toNat

namespace Expression

/-- An expression matches the whole seconds from 1970 on whose value in each field is in the set of the field. -/
def Matches (e : Expression) (t : Int) : Prop :=
  t % 1000 = 0 ∧ 1970 ≤ (Moment.ofMillis t).date.year ∧ ∀ f, (Moment.ofMillis t).value f ∈ e.values f

/-- An expression matched last at `t`, as seen at `now`: there is no later match up to `now`. Nothing is seen at an instant
that the calendar does not cover. -/
def LastMatch (e : Expression) (now t : Int) : Prop :=
  InCalendar now ∧ IsGreatest {t | e.Matches t ∧ t ≤ now} t

/-- An expression occurs where it matches. -/
theorem occursAt_iff_matches (e : Expression) (t : Int) : e.OccursAt t ↔ e.Matches t := by
  constructor
  · intro h
    obtain ⟨hsec, ⟨hfloor, hy, hmo, hd, hw⟩, hh, hmi, hs⟩ := h
    refine ⟨hsec, hfloor, fun f => ?_⟩
    cases f with
    | second => exact hs
    | minute => exact hmi
    | hour => exact hh
    | dayOfMonth => exact hd
    | month => exact hmo
    | dayOfWeek => exact hw
    | year => exact hy
  · intro h
    obtain ⟨hsec, hfloor, hf⟩ := h
    exact ⟨hsec, ⟨hfloor, hf .year, hf .month, hf .dayOfMonth, hf .dayOfWeek⟩, hf .hour, hf .minute, hf .second⟩

instance (e : Expression) (t : Int) : Decidable (e.Matches t) :=
  decidable_of_iff (e.OccursAt t) (occursAt_iff_matches e t)

/-- Matches are not before 1970. -/
theorem Matches.nonneg {e : Expression} {t : Int} (h : e.Matches t) : 0 ≤ t := by
  have hstart : daysBeforeYear 1970 = 0 := by decide
  have := (Moment.le_year_ofMillis_iff t).mp h.2.1
  omega

/-! ## Moments -/

/-- The moments of the calendar that an expression picks. -/
def PicksMoment (e : Expression) (m : Moment) : Prop :=
  m.IsReal ∧ e.OnDate m.date ∧ e.AtTime m.time

/-- The search on the last date finds the latest moment that is left on it. -/
theorem isLatest_latestOnDate? (e : Expression) {upTo : Moment} (hup : upTo.IsReal) :
    IsLatest (fun m => (e.PicksMoment m ∧ m.toMillis ≤ upTo.toMillis) ∧ m.date = upTo.date) Moment.toMillis
      (e.latestOnDate? upTo) := by
  have htime := e.isLatest_latestTime? hup.2
  unfold latestOnDate?
  by_cases hon : e.OnDate upTo.date
  · rw [if_pos hon]
    have hmap := htime.map (Moment.mk upTo.date) Moment.toMillis fun t t' _ _ hle => by
      simp only [Moment.toMillis]
      omega
    refine hmap.congr fun m => ?_
    constructor
    · intro h
      obtain ⟨t, ⟨hreal, hat, hle⟩, rfl⟩ := h
      refine ⟨⟨⟨⟨hup.1, hreal⟩, hon, hat⟩, ?_⟩, rfl⟩
      simp only [Moment.toMillis]
      omega
    · intro h
      obtain ⟨⟨⟨hreal, -, hat⟩, hle⟩, hdate⟩ := h
      obtain ⟨date, time⟩ := m
      subst hdate
      simp only [Moment.toMillis] at hle
      exact ⟨time, ⟨hreal.2, hat, by omega⟩, rfl⟩
  · rw [if_neg hon]
    intro m h
    obtain ⟨⟨⟨-, hon', -⟩, -⟩, hdate⟩ := h
    rw [hdate] at hon'
    exact hon hon'

/-- The search on earlier dates finds the latest moment before the last date. -/
theorem isLatest_latestBeforeDate? (e : Expression) (upTo : Moment) :
    IsLatest (fun m => e.PicksMoment m ∧ m.date.toDays < upTo.date.toDays) Moment.toMillis
      (e.latestBeforeDate? upTo) := by
  have hdate := e.isLatest_latestDate? (Date.isReal_ofDays (upTo.date.toDays - 1))
  have htime : IsLatest (e.AtTimeUpTo .endOfDay) (fun t => (t.toSeconds : Int)) (e.latestTime? .endOfDay) :=
    e.isLatest_latestTime? (by decide)
  have hpair := hdate.bind_map htime Moment.mk Moment.toMillis fun d t d' t' _ _ _ _ hd ht => by
    simp only [Moment.toMillis]
    omega
  refine hpair.congr fun m => ?_
  constructor
  · intro h
    obtain ⟨d, t, ⟨hd, hon, hle⟩, ⟨ht, hat, -⟩, rfl⟩ := h
    rw [Date.toDays_ofDays] at hle
    exact ⟨⟨⟨hd, ht⟩, hon, hat⟩, by show d.toDays < _; omega⟩
  · intro h
    obtain ⟨⟨⟨hd, ht⟩, hon, hat⟩, hlt⟩ := h
    refine ⟨m.date, m.time, ⟨hd, hon, ?_⟩, ⟨ht, hat, ?_⟩, rfl⟩
    · rw [Date.toDays_ofDays]
      omega
    · have := TimeOfDay.toSeconds_lt ht
      show (_ : Nat) ≤ 86399
      omega

/-- The search answers with the latest moment up to `upTo` that an expression picks. A moment that is picked is on the last
date or before it; the first come later, and the second search is not cut, so a third is not needed. -/
theorem isLatest_latestMoment? (e : Expression) {upTo : Moment} (hup : upTo.IsReal) :
    IsLatest (fun m => e.PicksMoment m ∧ m.toMillis ≤ upTo.toMillis) Moment.toMillis (e.latestMoment? upTo) := by
  have hor := (e.isLatest_latestOnDate? hup).or (e.isLatest_latestBeforeDate? upTo) fun m m' hm hm' => by
    have hlt : m.date.toDays < m'.date.toDays := by
      rw [hm'.2]
      exact hm.2
    exact Int.le_of_lt (Moment.toMillis_lt_of_toDays_lt hm.1.1 hlt)
  refine hor.congr fun m => ?_
  constructor
  · intro h
    rcases h with hm | hm
    · exact hm.1
    · exact ⟨hm.1, Int.le_of_lt (Moment.toMillis_lt_of_toDays_lt hm.1.1 hm.2)⟩
  · intro hm
    rcases Int.lt_trichotomy m.date.toDays upTo.date.toDays with hlt | heq | hgt
    · exact Or.inr ⟨hm.1, hlt⟩
    · exact Or.inl ⟨hm, Date.eq_of_toDays_eq hm.1.1.1 hup.1 heq⟩
    · have := Moment.toMillis_lt_of_toDays_lt hup hgt
      have := hm.2
      omega

/-! ## Instants -/

/-- The instants at which the picked moments up to that of `upTo` begin are the matches up to `upTo`. -/
theorem exists_picksMoment_iff (e : Expression) (upTo t : Int) :
    (∃ m, (e.PicksMoment m ∧ m.toMillis ≤ (Moment.ofMillis upTo).toMillis) ∧ m.toMillis = t) ↔
      e.Matches t ∧ t ≤ upTo := by
  rw [Moment.toMillis_ofMillis, ← occursAt_iff_matches]
  constructor
  · intro h
    obtain ⟨m, ⟨⟨hreal, hon, hat⟩, hle⟩, rfl⟩ := h
    rw [OccursAt, Moment.ofMillis_toMillis hreal]
    refine ⟨⟨?_, hon, hat⟩, by omega⟩
    simp only [Moment.toMillis]
    omega
  · intro h
    obtain ⟨⟨hsec, hon, hat⟩, hle⟩ := h
    have hself : (Moment.ofMillis t).toMillis = t := by
      rw [Moment.toMillis_ofMillis]
      omega
    exact ⟨Moment.ofMillis t, ⟨⟨Moment.isReal_ofMillis t, hon, hat⟩, by omega⟩, hself⟩

/-- In the calendar the search answers with the latest match. -/
theorem isLatest_latestInstant? (e : Expression) {upTo : Int} (hup : InCalendar upTo) :
    IsLatest (fun t => e.Matches t ∧ t ≤ upTo) (fun t => t) (e.latestInstant? upTo) := by
  unfold latestInstant?
  rw [if_pos hup]
  have hmap := (e.isLatest_latestMoment? (Moment.isReal_ofMillis upTo)).map Moment.toMillis (fun t => t)
    fun m m' _ _ hle => hle
  exact hmap.congr (e.exists_picksMoment_iff upTo)

/-- The search finds an instant exactly if it is the last match. -/
theorem latestInstant?_eq_some_iff (e : Expression) (upTo t : Int) :
    e.latestInstant? upTo = some t ↔ e.LastMatch upTo t := by
  constructor
  · intro h
    have hup : InCalendar upTo := by
      by_contra hn
      rw [latestInstant?, if_neg hn] at h
      cases h
    have hlatest := e.isLatest_latestInstant? hup
    rw [h] at hlatest
    exact ⟨hup, hlatest⟩
  · intro h
    obtain ⟨hup, hgreatest⟩ := h
    have hlatest := e.isLatest_latestInstant? hup
    cases hf : e.latestInstant? upTo with
    | none =>
      rw [hf] at hlatest
      exact absurd hgreatest.1 (hlatest t)
    | some t' =>
      rw [hf] at hlatest
      have hgreatest' : IsGreatest {t | e.Matches t ∧ t ≤ upTo} t' := hlatest
      rw [hgreatest.unique hgreatest']

/-- The search finds nothing exactly if the calendar does not cover the reference or there is no match up to it. -/
theorem latestInstant?_eq_none_iff (e : Expression) (upTo : Int) :
    e.latestInstant? upTo = none ↔ ¬(InCalendar upTo ∧ ∃ t, e.Matches t ∧ t ≤ upTo) := by
  by_cases hup : InCalendar upTo
  · rw [(e.isLatest_latestInstant? hup).eq_none_iff]
    simp only [hup, true_and, not_exists]
  · simp only [latestInstant?, hup, if_false, false_and, not_false_iff]

/-- In the calendar, an expression that has matched has a last match, and it is not earlier. -/
theorem exists_lastMatch {e : Expression} {now t : Int} (hnow : InCalendar now) (ht : e.Matches t) (hle : t ≤ now) :
    ∃ t', e.LastMatch now t' ∧ t ≤ t' := by
  cases hf : e.latestInstant? now with
  | none => exact absurd ⟨hnow, t, ht, hle⟩ ((e.latestInstant?_eq_none_iff now).mp hf)
  | some t' =>
    have hlast := (e.latestInstant?_eq_some_iff now t').mp hf
    exact ⟨t', hlast, hlast.2.2 ⟨ht, hle⟩⟩

/-- An expression that does not match between two instants has the same last match at both. -/
theorem lastMatch_iff_of_no_match {e : Expression} {now later t : Int} (hnow : InCalendar now)
    (hlater : InCalendar later) (hle : now ≤ later) (hquiet : ∀ t, now < t → t ≤ later → ¬e.Matches t) :
    e.LastMatch later t ↔ e.LastMatch now t := by
  have hseen : {t | e.Matches t ∧ t ≤ later} = {t | e.Matches t ∧ t ≤ now} := by
    ext t
    rw [Set.mem_ofPred_eq, Set.mem_ofPred_eq]
    constructor
    · rintro ⟨hmatch, hle'⟩
      exact ⟨hmatch, Int.not_lt.mp fun hlt => hquiet t hlt hle' hmatch⟩
    · rintro ⟨hmatch, hle'⟩
      exact ⟨hmatch, Int.le_trans hle' hle⟩
  rw [LastMatch, LastMatch, hseen]
  simp only [hnow, hlater, true_and]

/-- The time since a last match is a word, and its number is the true difference. -/
theorem toNat_ofNat_sub_of_lastMatch {e : Expression} {now : Int64} {t : Int} (h : e.LastMatch now.toInt t) :
    (UInt64.ofNat (now.toInt - t).toNat).toNat = (now.toInt - t).toNat := by
  have hnonneg := h.2.1.1.nonneg
  have hnow := Int64.toInt_lt now
  exact UInt64.toNat_ofNat_of_lt' (by show _ < 18446744073709551616; omega)

/-- The time since the last match is found exactly if that match lies so far back. -/
theorem elapsed?_eq_some_iff (e : Expression) (now : Int64) (elapsed : UInt64) :
    e.elapsed? now = some elapsed ↔ e.LastMatch now.toInt (now.toInt - elapsed.toNat) := by
  unfold elapsed?
  rw [Option.map_eq_some_iff]
  constructor
  · intro h
    obtain ⟨t, ht, rfl⟩ := h
    have hlast := (e.latestInstant?_eq_some_iff _ _).mp ht
    rw [toNat_ofNat_sub_of_lastMatch hlast]
    have hle := hlast.2.1.2
    have hself : now.toInt - ((now.toInt - t).toNat : Int) = t := by omega
    rw [hself]
    exact hlast
  · intro hlast
    refine ⟨_, (e.latestInstant?_eq_some_iff _ _).mpr hlast, ?_⟩
    apply UInt64.toNat_inj.mp
    rw [toNat_ofNat_sub_of_lastMatch hlast]
    omega

/-- Exactness of the backward search, for the expression that any text stands for, at every reference. The time since a
match is found exactly if that match is the greatest instant up to the reference that the expression matches, and nothing is
found exactly if there is no such instant or the calendar does not cover the reference. -/
theorem read_elapsed?_exact (text : String) (now : Int64) :
    (∀ elapsed, (read text).elapsed? now = some elapsed ↔
      InCalendar now.toInt ∧
        IsGreatest {t | (read text).Matches t ∧ t ≤ now.toInt} (now.toInt - elapsed.toNat)) ∧
    ((read text).elapsed? now = none ↔ ¬(InCalendar now.toInt ∧ ∃ t, (read text).Matches t ∧ t ≤ now.toInt)) := by
  refine ⟨fun elapsed => (read text).elapsed?_eq_some_iff now elapsed, ?_⟩
  rw [← latestInstant?_eq_none_iff, elapsed?, Option.map_eq_none_iff]

end Expression

end Recurrence
