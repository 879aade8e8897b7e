import Recurrence.Proofs.Search.Latest
import Recurrence.Search.LatestTime

/-!
# The latest time of day is found

`Expression.latestTime?` goes down through hours, minutes and seconds, and `upTo` cuts the minutes of its own hour and the
seconds of its own minute (`LatestTimeAux.toSeconds_le_iff`). A search up to the end of the day is not cut at all.
-/

namespace Recurrence

/-- The times of the clock up to a given one that an expression picks. -/
def Expression.AtTimeUpTo (e : Expression) (upTo t : TimeOfDay) : Prop :=
  t.IsReal ∧ e.AtTime t ∧ t.toSeconds ≤ upTo.toSeconds

namespace LatestTimeAux

variable {e : Expression} {upTo : TimeOfDay}

/-- The last minute that is left in an hour, when the minutes after the one of `upTo` are cut off. -/
def lastMinute (upTo : TimeOfDay) (hour : Nat) : Nat :=
  if hour = upTo.hour then upTo.minute else 59

/-- The last second that is left in a minute, when the seconds after `upTo` are cut off. -/
def lastSecond (upTo : TimeOfDay) (hour minute : Nat) : Nat :=
  if hour = upTo.hour ∧ minute = upTo.minute then upTo.second else 59

/-- The search for a second of a minute. -/
def searchSecond (e : Expression) (upTo : TimeOfDay) (hour minute : Nat) : Option TimeOfDay :=
  (e.second.downFrom (lastSecond upTo hour minute) 0).head?.map (TimeOfDay.mk hour minute)

/-- The search for a minute of an hour. -/
def searchMinute (e : Expression) (upTo : TimeOfDay) (hour : Nat) : Option TimeOfDay :=
  (e.minute.downFrom (lastMinute upTo hour) 0).findSome? (searchSecond e upTo hour)

/-- The whole search goes through the hours. -/
theorem latestTime?_eq (e : Expression) (upTo : TimeOfDay) :
    e.latestTime? upTo = (e.hour.downFrom upTo.hour 0).findSome? (searchMinute e upTo) :=
  rfl

/-- A time of an hour that is left is up to `upTo` exactly if its minute and its second are left. -/
theorem toSeconds_le_iff {t : TimeOfDay} (hup : upTo.IsReal) (h : t.IsReal) (hle : t.hour ≤ upTo.hour) :
    t.toSeconds ≤ upTo.toSeconds ↔ t.minute ≤ lastMinute upTo t.hour ∧ t.second ≤ lastSecond upTo t.hour t.minute := by
  obtain ⟨-, h2, h3⟩ := h
  obtain ⟨-, hup2, hup3⟩ := hup
  simp only [TimeOfDay.toSeconds, lastMinute, lastSecond]
  split <;> split <;> omega

/-- The head of a descending list is the latest of its values. -/
theorem isLatest_head? {values : List Nat} (hdesc : values.Pairwise (· > ·)) :
    IsLatest (· ∈ values) (fun n => (n : Int)) values.head? := by
  cases values with
  | nil =>
    intro n hn
    cases hn
  | cons n values =>
    refine ⟨List.mem_cons_self, fun m hm => ?_⟩
    rcases List.mem_cons.mp hm with rfl | hm
    · exact Int.le_refl _
    · exact Int.ofNat_le.mpr (Nat.le_of_lt ((List.pairwise_cons.mp hdesc).1 m hm))

/-- The seconds of a minute are searched for the latest one that is picked. -/
theorem isLatest_searchSecond (hup : upTo.IsReal) {hour minute : Nat} (hh : hour ∈ e.hour) (hhle : hour ≤ upTo.hour)
    (hm : minute ∈ e.minute) (hmle : minute ≤ lastMinute upTo hour) :
    IsLatest (fun t : TimeOfDay => t.minute = minute ∧ t.hour = hour ∧ e.AtTimeUpTo upTo t)
      (fun t => (t.toSeconds : Int)) (searchSecond e upTo hour minute) := by
  have h23 : hour ≤ 23 := Nat.le_trans hhle hup.1
  have h59 : minute ≤ 59 := by
    refine Nat.le_trans hmle ?_
    simp only [lastMinute]
    split
    · exact hup.2.1
    · exact Nat.le_refl _
  have hs59 : lastSecond upTo hour minute ≤ 59 := by
    simp only [lastSecond]
    split
    · exact hup.2.2
    · exact Nat.le_refl _
  have hhead := isLatest_head? (ValueSet.pairwise_downFrom e.second (lastSecond upTo hour minute) 0)
  have hseconds := hhead.map (TimeOfDay.mk hour minute) (fun t => (t.toSeconds : Int)) fun m n _ _ hle => by
    simp only [TimeOfDay.toSeconds]
    omega
  refine IsLatest.congr hseconds fun t => ?_
  constructor
  · intro h
    obtain ⟨second, hsecond, rfl⟩ := h
    obtain ⟨hmem, -, hle⟩ := ValueSet.mem_downFrom.mp hsecond
    have hreal : TimeOfDay.IsReal ⟨hour, minute, second⟩ := ⟨h23, h59, Nat.le_trans hle hs59⟩
    exact ⟨rfl, rfl, hreal, ⟨hh, hm, hmem⟩, (toSeconds_le_iff hup hreal hhle).mpr ⟨hmle, hle⟩⟩
  · intro h
    obtain ⟨rfl, rfl, hreal, ⟨-, -, hs⟩, hupTo⟩ := h
    have hbound := (toSeconds_le_iff hup hreal hhle).mp hupTo
    exact ⟨t.second, ValueSet.mem_downFrom.mpr ⟨hs, Nat.zero_le _, hbound.2⟩, rfl⟩

/-- The minutes of an hour are searched for the latest time that is picked. -/
theorem isLatest_searchMinute (hup : upTo.IsReal) {hour : Nat} (hh : hour ∈ e.hour) (hhle : hour ≤ upTo.hour) :
    IsLatest (fun t : TimeOfDay => t.hour = hour ∧ e.AtTimeUpTo upTo t) (fun t => (t.toSeconds : Int))
      (searchMinute e upTo hour) := by
  have hminutes : IsLatest
      (fun t : TimeOfDay => ∃ minute ∈ e.minute.downFrom (lastMinute upTo hour) 0, t.minute = minute ∧ t.hour = hour ∧
        e.AtTimeUpTo upTo t) (fun t => (t.toSeconds : Int)) (searchMinute e upTo hour) := by
    refine IsLatest.findSome? (ValueSet.pairwise_downFrom _ _ _) ?_ ?_
    · intro minute hminute
      obtain ⟨hm, -, hmle⟩ := ValueSet.mem_downFrom.mp hminute
      exact isLatest_searchSecond hup hh hhle hm hmle
    · intro minute minute' t t' hlt h1 h2
      obtain ⟨rfl, hth, ⟨-, -, hs⟩, -⟩ := h1
      obtain ⟨rfl, hth', -, -⟩ := h2
      simp only [TimeOfDay.toSeconds]
      omega
  refine hminutes.congr fun t => ⟨?_, ?_⟩
  · intro h
    obtain ⟨minute, -, -, ht⟩ := h
    exact ht
  · intro h
    obtain ⟨rfl, ht⟩ := h
    have hbound := (toSeconds_le_iff hup ht.1 hhle).mp ht.2.2
    exact ⟨t.minute, ValueSet.mem_downFrom.mpr ⟨ht.2.1.2.1, Nat.zero_le _, hbound.1⟩, rfl, rfl, ht⟩

end LatestTimeAux

open LatestTimeAux

namespace Expression

/-- The search answers with the latest time up to `upTo` that an expression picks, and with nothing exactly if it picks
none, whatever values the sets hold. -/
theorem isLatest_latestTime? (e : Expression) {upTo : TimeOfDay} (hup : upTo.IsReal) :
    IsLatest (e.AtTimeUpTo upTo) (fun t => (t.toSeconds : Int)) (e.latestTime? upTo) := by
  have hhours : IsLatest
      (fun t : TimeOfDay => ∃ hour ∈ e.hour.downFrom upTo.hour 0, t.hour = hour ∧ e.AtTimeUpTo upTo t)
      (fun t => (t.toSeconds : Int)) (e.latestTime? upTo) := by
    rw [latestTime?_eq]
    refine IsLatest.findSome? (ValueSet.pairwise_downFrom _ _ _) ?_ ?_
    · intro hour hhour
      obtain ⟨hh, -, hhle⟩ := ValueSet.mem_downFrom.mp hhour
      exact isLatest_searchMinute hup hh hhle
    · intro hour hour' t t' hlt h1 h2
      obtain ⟨rfl, ⟨-, hm, hs⟩, -⟩ := h1
      obtain ⟨rfl, -⟩ := h2
      simp only [TimeOfDay.toSeconds]
      omega
  refine hhours.congr fun t => ⟨?_, ?_⟩
  · intro h
    obtain ⟨hour, -, -, ht⟩ := h
    exact ht
  · intro ht
    have hhle : t.hour ≤ upTo.hour := by
      obtain ⟨-, hup2, hup3⟩ := hup
      have := ht.2.2
      simp only [TimeOfDay.toSeconds] at this
      omega
    exact ⟨t.hour, ValueSet.mem_downFrom.mpr ⟨ht.2.1.1, Nat.zero_le _, hhle⟩, rfl, ht⟩

end Expression

end Recurrence
