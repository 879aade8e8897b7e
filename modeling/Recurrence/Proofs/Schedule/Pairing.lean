import Recurrence.Schedule.Settings

/-!
# Settings are paired by position

The candidate at an index is made from the two texts at this index and from nothing else (`getElem?_candidates`). So a text that
cannot be read spoils its own candidate only, and no other candidate changes its place; texts without a partner do nothing; and
settings that begin alike make schedules that begin alike (`schedule_pairs`).
-/

namespace Recurrence

/-- A candidate is made from an expression and a cycle length. A cycle length that cannot be read counts as a day. -/
structure Candidate.MadeFrom (start interval : String) (c : Candidate) : Prop where
  expression : c.expression = Expression.read start
  cycle : ∀ seconds, CycleLength.read interval = .ok seconds → c.cycle = seconds
  day : ∀ e, CycleLength.read interval = .error e → c.cycle = 86400

/-- The candidate of two texts is made from them. -/
theorem Candidate.madeFrom_ofTexts (start interval : String) : (Candidate.ofTexts start interval).MadeFrom start interval where
  expression := rfl
  cycle := by
    intro seconds h
    simp only [ofTexts, h, Except.toOption, Option.getD_some]
  day := by
    intro e h
    simp only [ofTexts, h, Except.toOption, Option.getD_none, dayCycle]

/-- Two schedules differ at most in the candidate at an index. -/
structure Schedule.DifferAtMostAt (i : Nat) (schedule schedule' : Schedule) : Prop where
  offset : schedule'.offset = schedule.offset
  length : schedule'.candidates.length = schedule.candidates.length
  candidate : ∀ j ≠ i, schedule'.candidates[j]? = schedule.candidates[j]?

namespace Settings

/-- The candidate at an index is made from the texts at this index, if both lists have one. -/
theorem getElem?_candidates {settings : Settings} {i : Nat} {c : Candidate} :
    settings.schedule.candidates[i]? = some c ↔
      ∃ start interval, settings.starts[i]? = some start ∧ settings.intervals[i]? = some interval ∧
        Candidate.ofTexts start interval = c := by
  unfold schedule
  rw [List.getElem?_zipWith]
  cases settings.starts[i]? <;> cases settings.intervals[i]? <;> simp

/-- Settings with the same texts at an index have the same candidate there. -/
theorem getElem?_candidates_congr {settings settings' : Settings} {i : Nat}
    (hstart : settings'.starts[i]? = settings.starts[i]?) (hinterval : settings'.intervals[i]? = settings.intervals[i]?) :
    settings'.schedule.candidates[i]? = settings.schedule.candidates[i]? := by
  ext c
  rw [getElem?_candidates, getElem?_candidates, hstart, hinterval]

/-- Settings with the same texts up to an index have the same candidates up to it. -/
theorem take_candidates_congr {settings settings' : Settings} {k : Nat}
    (hstarts : settings'.starts.take k = settings.starts.take k)
    (hintervals : settings'.intervals.take k = settings.intervals.take k) :
    settings'.schedule.candidates.take k = settings.schedule.candidates.take k := by
  show (List.zipWith _ settings'.starts settings'.intervals).take k = (List.zipWith _ settings.starts settings.intervals).take k
  rw [List.take_zipWith, List.take_zipWith, hstarts, hintervals]

/-- The texts without a partner do nothing: settings that have as many pairs, and the same ones, make the same schedule. -/
theorem schedule_congr {settings settings' : Settings} (hoffset : settings'.offset = settings.offset)
    (hlength : settings'.schedule.candidates.length = settings.schedule.candidates.length)
    (hstarts : settings'.starts.take settings.schedule.candidates.length =
      settings.starts.take settings.schedule.candidates.length)
    (hintervals : settings'.intervals.take settings.schedule.candidates.length =
      settings.intervals.take settings.schedule.candidates.length) :
    settings'.schedule = settings.schedule := by
  have hcandidates := take_candidates_congr hstarts hintervals
  rw [List.take_length, ← hlength, List.take_length] at hcandidates
  calc settings'.schedule = ⟨settings'.schedule.candidates, settings'.offset⟩ := rfl
    _ = ⟨settings.schedule.candidates, settings.offset⟩ := by rw [hcandidates, hoffset]
    _ = settings.schedule := rfl

/-- A text in place of another changes at most the candidate at its index. -/
theorem differAtMostAt_of_set (settings : Settings) (i : Nat) (text : String) :
    settings.schedule.DifferAtMostAt i { settings with starts := settings.starts.set i text }.schedule ∧
      settings.schedule.DifferAtMostAt i { settings with intervals := settings.intervals.set i text }.schedule := by
  refine ⟨⟨rfl, ?_, fun j hj => ?_⟩, ⟨rfl, ?_, fun j hj => ?_⟩⟩
  · simp only [length_candidates, List.length_set]
  · exact getElem?_candidates_congr (List.getElem?_set_ne (Ne.symm hj)) rfl
  · simp only [length_candidates, List.length_set]
  · exact getElem?_candidates_congr rfl (List.getElem?_set_ne (Ne.symm hj))

/-- A mismatch is reported exactly if the lists differ in length, with the two lengths. -/
theorem mismatch?_eq_some_iff {settings : Settings} {m : LengthMismatch} :
    settings.mismatch? = some m ↔
      settings.starts.length ≠ settings.intervals.length ∧ m.starts = settings.starts.length ∧
        m.intervals = settings.intervals.length := by
  cases m
  unfold mismatch?
  split
  · next heq => simp [heq]
  · next hne => simp [hne, eq_comm]

/-- The schedule of settings is made pair by pair.
1. There are as many candidates as the shorter list has texts, and the one at an index is made from the two texts there.
2. The offset is kept as it is.
3. A mismatch is reported exactly if the lists differ in length, with the two lengths and the number of pairs.
4. Another text in place of one of either list, readable or not, changes at most the candidate at its index.
5. Texts without a partner change neither the schedule nor any selection.
6. Settings that agree in their first pairs agree in the candidates of these. -/
theorem schedule_pairs (settings : Settings) :
    let used := min settings.starts.length settings.intervals.length
    (settings.schedule.candidates.length = used ∧
      ∀ (i : Nat) (start interval : String), settings.starts[i]? = some start → settings.intervals[i]? = some interval →
        ∃ c, settings.schedule.candidates[i]? = some c ∧ c.MadeFrom start interval) ∧
    settings.schedule.offset = settings.offset ∧
    (∀ m, settings.mismatch? = some m ↔ settings.starts.length ≠ settings.intervals.length ∧
      m.starts = settings.starts.length ∧ m.intervals = settings.intervals.length) ∧
    (∀ m ∈ settings.mismatch?, m.used = used) ∧
    (∀ i text, settings.schedule.DifferAtMostAt i { settings with starts := settings.starts.set i text }.schedule ∧
      settings.schedule.DifferAtMostAt i { settings with intervals := settings.intervals.set i text }.schedule) ∧
    (∀ settings' : Settings, settings'.offset = settings.offset →
      min settings'.starts.length settings'.intervals.length = used →
      settings'.starts.take used = settings.starts.take used → settings'.intervals.take used = settings.intervals.take used →
      settings'.schedule = settings.schedule ∧ ∀ now client catalog,
        settings'.schedule.selection now client catalog = settings.schedule.selection now client catalog) ∧
    (∀ (settings' : Settings) (k : Nat), settings'.starts.take k = settings.starts.take k →
      settings'.intervals.take k = settings.intervals.take k →
      settings'.schedule.candidates.take k = settings.schedule.candidates.take k) := by
  intro used
  have hused := length_candidates settings
  refine ⟨⟨hused, fun i start interval hstart hinterval => ?_⟩, rfl, fun m => mismatch?_eq_some_iff, fun m hm => ?_,
    differAtMostAt_of_set settings, fun settings' hoffset hlength hstarts hintervals => ?_,
    fun settings' k => take_candidates_congr⟩
  · exact ⟨_, getElem?_candidates.mpr ⟨start, interval, hstart, hinterval, rfl⟩, Candidate.madeFrom_ofTexts start interval⟩
  · obtain ⟨-, hstarts, hintervals⟩ := mismatch?_eq_some_iff.mp hm
    rw [LengthMismatch.used, hstarts, hintervals]
  · have hsame : settings'.schedule = settings.schedule := by
      refine schedule_congr hoffset ?_ ?_ ?_
      · rw [hused, length_candidates, hlength]
      · rw [hused]
        exact hstarts
      · rw [hused]
        exact hintervals
    exact ⟨hsame, fun now client catalog => by rw [hsame]⟩

end Settings

end Recurrence
